import Ezcap.Library.JsonReference
import Ezcap.Model.ScriptLoading
import Ezcap.Verification.Common.Sha256

/-! Scripts come only from below the allowlisted directories. The test on the text of the path is
one on its components, and the path that is opened is the canonical path of the file. -/

namespace Ezcap.Drivers

open StdString PathName
open Manifests (DriverManifest)

/-! ## The test on the text -/

section Allowlist

variable {dirs : List Bytes} {dir : Bytes} {d p : Canonical}

/-- The text of a directory ends where the path ends or at a slash of the path. -/
theorem boundary_iff (dir rest : Bytes) :
    ((dir ++ rest).length == dir.length ||
        (decide (0 < dir.length) && dir.getLast? == some '/'.toUInt8) ||
        (dir ++ rest).getD dir.length 0 == '/'.toUInt8) = true ↔
      rest = [] ∨ dir.getLast? = some slash ∨ rest.head? = some slash := by
  have hnul : (0 : UInt8) ≠ slash := by decide
  have hnonempty : dir.getLast? = some slash → 0 < dir.length := by
    intro hlast
    rw [List.length_pos_iff]
    rintro rfl
    cases hlast
  have hchar : ((dir ++ rest).getD dir.length 0 = slash) ↔ rest.head? = some slash := by
    cases rest <;> simp [hnul]
  simp only [Bool.or_eq_true, Bool.and_eq_true, beq_iff_eq, decide_eq_true_eq, or_assoc]
  refine or_congr (by simp) (or_congr ?_ hchar)
  exact and_iff_right_of_imp hnonempty

theorem pathWithinAllowlist_iff {path : Bytes} :
    pathWithinAllowlist path dirs = true ↔ ∃ dir ∈ dirs, ∃ rest, path = dir ++ rest ∧
      (rest = [] ∨ dir.getLast? = some slash ∨ rest.head? = some slash) := by
  rw [pathWithinAllowlist, List.any_eq_true]
  refine exists_congr fun dir => and_congr_right fun _ => ?_
  rw [Bool.and_eq_true, List.isPrefixOf_iff_prefix]
  constructor
  · rintro ⟨⟨rest, rfl⟩, hboundary⟩
    exact ⟨rest, rfl, (boundary_iff dir rest).mp hboundary⟩
  · rintro ⟨rest, rfl, hboundary⟩
    exact ⟨List.prefix_append dir rest, (boundary_iff dir rest).mpr hboundary⟩

/-- A canonical path that passes is that of a directory of the list, or lies below it. -/
theorem prefix_of_within (hdirs : ∀ dir ∈ dirs, ∃ d : Canonical, d.Spells dir)
    (h : pathWithinAllowlist p.text dirs = true) :
    ∃ dir ∈ dirs, ∃ d : Canonical, d.Spells dir ∧ d.components <+: p.components := by
  obtain ⟨dir, hdir, rest, htext, hboundary⟩ := pathWithinAllowlist_iff.mp h
  obtain ⟨d, hspells⟩ := hdirs dir hdir
  exact ⟨dir, hdir, d, hspells, Canonical.prefix_of_spells hspells htext hboundary⟩

theorem within_of_below (hdir : dir ∈ dirs) (hspells : d.Spells dir) {below : List Bytes}
    (hbelow : below ≠ []) (hp : p.components = d.components ++ below) :
    pathWithinAllowlist p.text dirs = true := by
  obtain ⟨rest, htext⟩ := Canonical.text_of_below hp hbelow
  rw [pathWithinAllowlist_iff]
  rcases hspells.2 with rfl | rfl
  · exact ⟨_, hdir, slash :: rest, htext, .inr (.inr rfl)⟩
  · exact ⟨_, hdir, rest, by simp [htext], .inr (.inl (by simp))⟩

end Allowlist

/-! ## Reading -/

/-- What was found out about a file before its content is taken for a script. -/
structure Checked (file : OpenedFile) (stat : Stat) (path source : Bytes) : Prop where
  stat_eq : file.stat = some stat
  regular : stat.regular = true
  size_le : stat.size.toNat ≤ kMaxScriptBytes
  link_eq : file.link = some path
  source_eq : readSource stat.size.toNat file.reads = some source

theorem readScriptSafely_ok {openFile : OpenFile} {path source : Bytes}
    (h : readScriptSafely openFile path = .ok source) :
    ∃ file stat, openFile (untilNul path) = some file ∧ Checked file stat path source := by
  unfold readScriptSafely at h
  split at h
  · cases h
  rename_i file hopen
  split at h
  · cases h
  rename_i stat hstat
  dsimp only at h
  split_ifs at h with hregular hsize hempty hcanonical
  cases hsource : readSource stat.size.toNat file.reads with
  | none =>
      rw [hsource] at h
      cases h
  | some content =>
      rw [hsource] at h
      cases h
      refine ⟨file, stat, hopen, hstat, by simpa using hregular, Nat.le_of_not_lt hsize, ?_,
        hsource⟩
      cases hlink : file.link with
      | none => simp [hlink] at hempty
      | some link => simpa [hlink] using hcanonical

theorem length_readSource {remaining : ℕ} {reads : List Bytes} {source : Bytes}
    (h : readSource remaining reads = some source) : source.length = remaining := by
  induction reads generalizing remaining source with
  | nil =>
      simp only [readSource, Option.ite_none_right_eq_some, Option.some.injEq] at h
      obtain ⟨rfl, rfl⟩ := h
      rfl
  | cons chunk reads ih =>
      simp only [readSource] at h
      split_ifs at h with hzero hchunk
      · cases h
        exact hzero.symm
      · obtain ⟨rest, hrest, rfl⟩ := Option.map_eq_some_iff.mp h
        rw [List.length_append, List.length_take, ih hrest]
        omega

/-- No script is longer than the cap, whatever the calls of `read` give. -/
theorem length_readScriptSafely {openFile : OpenFile} {path source : Bytes}
    (h : readScriptSafely openFile path = .ok source) : source.length ≤ kMaxScriptBytes := by
  obtain ⟨file, stat, -, hchecked⟩ := readScriptSafely_ok h
  rw [length_readSource hchecked.source_eq]
  exact hchecked.size_le

theorem readScript_ok {engine : DriverEngine} {lib : JsonLib} {openFile : OpenFile}
    {text source : Bytes} {manifest : DriverManifest}
    (h : engine.readScript lib openFile text = .ok (manifest, source)) :
    (engine.allowdirs = [] ∨
        pathWithinAllowlist manifest.scriptPath engine.allowdirs = true) ∧
      readScriptSafely openFile manifest.scriptPath = .ok source := by
  unfold DriverEngine.readScript at h
  split at h
  · cases h
  rename_i parsed _
  split_ifs at h with hrefused
  cases hread : readScriptSafely openFile parsed.scriptPath with
  | error error =>
      rw [hread] at h
      cases h
  | ok content =>
      rw [hread] at h
      cases h
      refine ⟨?_, hread⟩
      by_contra hnot
      exact hrefused (by simpa using hnot)

/-- The system's name for an open file is its canonical path. -/
def ResolvesToCanonical (openFile : OpenFile) : Prop :=
  ∀ path file link, openFile path = some file → file.link = some link → link = file.path.text

/-- Canonical paths have no NUL, so nothing of the manifest's path was cut off by `open`. -/
theorem readScriptSafely_canonical {openFile : OpenFile} (hproc : ResolvesToCanonical openFile)
    {path source : Bytes} (h : readScriptSafely openFile path = .ok source) :
    ∃ file, openFile path = some file ∧ file.path.text = path := by
  obtain ⟨file, stat, hopen, hchecked⟩ := readScriptSafely_ok h
  have htext := hproc _ file path hopen hchecked.link_eq
  have hnul : untilNul path = path := by
    rw [untilNul_eq_self_iff, htext]
    exact file.path.text_no_nul
  rw [hnul] at hopen
  exact ⟨file, hopen, htext.symm⟩

/-! ## The pin -/

/-- A pinned script is loaded only if its SHA-256 digest is the pin. -/
theorem verifyScriptHash_ok_iff {fuel : ℕ} (hfuel : 64 ≤ fuel)
    (manifest : DriverManifest) (source : Bytes) :
    verifyScriptHash fuel manifest source = some (.ok ()) ↔
      manifest.scriptSha256 = [] ∨
        manifest.scriptSha256 = (Sha256Standard.digest source).flatMap Format.hexByte := by
  by_cases hpin : manifest.scriptSha256 = []
  · simp [verifyScriptHash, hpin]
  · simp [verifyScriptHash, hpin, Sha256.hexDigest_eq hfuel, eq_comm]

/-- Every load ends. What it loads is a script within the cap that has the pinned digest, if there
is one, and nothing but the content that was hashed. -/
theorem loaded_script_pinned {fuel : ℕ} (hfuel : 64 ≤ fuel) (engine : DriverEngine)
    (lib : JsonLib) (openFile : OpenFile) (input : LoadInput) (text : Bytes) :
    (∃ error,
      engine.loadFromManifestText fuel lib openFile input text = some (.error error)) ∨
    ∃ manifest source, engine.readScript lib openFile text = .ok (manifest, source) ∧
      source.length ≤ kMaxScriptBytes ∧
      (manifest.scriptSha256 = [] ∨
        manifest.scriptSha256 = (Sha256Standard.digest source).flatMap Format.hexByte) ∧
      engine.loadFromManifestText fuel lib openFile input text =
        some (.ok (DriverInstance.load { manifest, limits := engine.limits }
          { input with source }).driver) := by
  unfold DriverEngine.loadFromManifestText
  cases hread : engine.readScript lib openFile text with
  | error error => exact .inl ⟨error, rfl⟩
  | ok result =>
      obtain ⟨manifest, source⟩ := result
      obtain ⟨verified, hverified⟩ : ∃ verified,
          verifyScriptHash fuel manifest source = some verified := by
        rw [verifyScriptHash, Sha256.hexDigest_eq hfuel]
        split_ifs <;> exact ⟨_, rfl⟩
      simp only [hverified, Option.map_some]
      rcases verified with error | ⟨⟩
      · exact .inl ⟨error, rfl⟩
      dsimp only
      split
      · exact .inl ⟨_, rfl⟩
      · exact .inr ⟨manifest, source, rfl, length_readScriptSafely (readScript_ok hread).2,
          (verifyScriptHash_ok_iff hfuel manifest source).mp hverified, rfl⟩

/-! ## Loading -/

/-- Every load fails before the script is read, with the error of that, or reads a file by its
canonical path, which is that of an allowlisted directory or has its components first. And the
allowlist keeps no path out that lies below one of its directories. -/
theorem scripts_from_allowlist (engine : DriverEngine) (lib : JsonLib) (openFile : OpenFile)
    (hproc : ResolvesToCanonical openFile) (hne : engine.allowdirs ≠ [])
    (hdirs : ∀ dir ∈ engine.allowdirs, ∃ d : Canonical, d.Spells dir) :
    (∀ fuel input text,
      (∃ error, engine.readScript lib openFile text = .error error ∧
        engine.loadFromManifestText fuel lib openFile input text = some (.error error)) ∨
      ∃ manifest source file, engine.readScript lib openFile text = .ok (manifest, source) ∧
        openFile manifest.scriptPath = some file ∧ file.path.text = manifest.scriptPath ∧
        ∃ dir ∈ engine.allowdirs, ∃ d : Canonical, d.Spells dir ∧
          d.components <+: file.path.components) ∧
    ∀ dir ∈ engine.allowdirs, ∀ d p : Canonical, d.Spells dir →
      (∃ below ≠ [], p.components = d.components ++ below) →
      pathWithinAllowlist p.text engine.allowdirs = true := by
  constructor
  · intro fuel input text
    cases hread : engine.readScript lib openFile text with
    | error error =>
        refine .inl ⟨error, rfl, ?_⟩
        rw [DriverEngine.loadFromManifestText, hread]
    | ok result =>
        obtain ⟨manifest, source⟩ := result
        obtain ⟨hwithin, hscript⟩ := readScript_ok hread
        obtain ⟨file, hopen, htext⟩ := readScriptSafely_canonical hproc hscript
        have hwithin := hwithin.resolve_left hne
        rw [← htext] at hwithin
        exact .inr ⟨manifest, source, file, rfl, hopen, htext, prefix_of_within hdirs hwithin⟩
  · rintro dir hdir d p hspells ⟨below, hbelow, hp⟩
    exact within_of_below hdir hspells hbelow hp

/-- The directory `/opt/a`. -/
def optA : Canonical := ⟨[cstr "opt", cstr "a"], by decide⟩

/-- The empty file `/opt/a/b.lua`. -/
def emptyScript : OpenedFile where
  path := ⟨[cstr "opt", cstr "a", cstr "b.lua"], by decide⟩
  stat := some { regular := true, size := 0 }
  link := cstr "/opt/a/b.lua"
  reads := []

def openEmptyScript : OpenFile := fun path =>
  if path = cstr "/opt/a/b.lua" then some emptyScript else none

def scriptManifest : Bytes :=
  cstr "\x7b\"name\":\"a\",\"script\":\"/opt/a/b.lua\",\"version\":\"1.0\"\x7d"

/-- With `/opt/a/` as the only directory, the script `/opt/a/b.lua` is read and lies below it. -/
theorem scripts_from_allowlist_opt :
    ResolvesToCanonical openEmptyScript ∧ optA.Spells (cstr "/opt/a/") ∧
      ∃ manifest source file,
        DriverEngine.readScript { allowdirs := [cstr "/opt/a/"] } JsonReference.lib
          openEmptyScript scriptManifest = .ok (manifest, source) ∧
        openEmptyScript manifest.scriptPath = some file ∧
        file.path.text = manifest.scriptPath := by
  have hproc : ResolvesToCanonical openEmptyScript := by
    intro path file link hopen hlink
    simp only [openEmptyScript, Option.ite_none_right_eq_some, Option.some.injEq] at hopen
    obtain ⟨-, rfl⟩ := hopen
    cases hlink
    decide
  have hspells : optA.Spells (cstr "/opt/a/") := ⟨by decide, .inr (by decide)⟩
  have hdirs : ∀ dir ∈ [cstr "/opt/a/"], ∃ d : Canonical, d.Spells dir := by
    intro dir hdir
    rw [List.mem_singleton.mp hdir]
    exact ⟨optA, hspells⟩
  refine ⟨hproc, hspells, ?_⟩
  rcases (scripts_from_allowlist { allowdirs := [cstr "/opt/a/"] } JsonReference.lib
    openEmptyScript hproc (by simp) hdirs).1 64 {} scriptManifest with
    ⟨error, herror, -⟩ | ⟨manifest, source, file, hread, hopen, htext, -⟩
  · have hok : (DriverEngine.readScript { allowdirs := [cstr "/opt/a/"] } JsonReference.lib
        openEmptyScript scriptManifest).isOk = true := by
      decide +kernel
    rw [herror] at hok
    cases hok
  · exact ⟨manifest, source, file, hread, hopen, htext⟩

/-- The file `/opt/a/b.lua` with one assignment. -/
def openPinnedScript : OpenFile := fun path =>
  if path = cstr "/opt/a/b.lua" then
    some { emptyScript with stat := some { regular := true, size := 3 }, reads := [cstr "x=1"] }
  else none

def pinnedManifest : Bytes :=
  cstr "\x7b\"name\":\"a\",\"script\":\"/opt/a/b.lua\",\"script_sha256\":\"" ++
    cstr "1f206b11c23e28cc250ded7fc0098d3823a8467a54340f1ac4e535cb8544493f" ++
    cstr "\",\"version\":\"1.0\"\x7d"

/-- It is loaded, and its digest is the pin of the manifest. -/
theorem loaded_script_pinned_assignment :
    ∃ manifest, DriverEngine.readScript {} JsonReference.lib openPinnedScript pinnedManifest =
        .ok (manifest, cstr "x=1") ∧
      manifest.scriptSha256 = (Sha256Standard.digest (cstr "x=1")).flatMap Format.hexByte := by
  have hloads : (DriverEngine.loadFromManifestText {} 64 JsonReference.lib openPinnedScript {}
      pinnedManifest).any Except.isOk = true := by decide +kernel
  have hscript : ((DriverEngine.readScript {} JsonReference.lib openPinnedScript
      pinnedManifest).map fun read => (read.1.scriptSha256.isEmpty, read.2)) =
        .ok (false, cstr "x=1") := by decide +kernel
  obtain ⟨error, herror⟩ | ⟨manifest, source, hread, -, hpin, -⟩ :=
    loaded_script_pinned le_rfl {} JsonReference.lib openPinnedScript {} pinnedManifest
  · rw [herror] at hloads
    cases hloads
  · rw [hread] at hscript
    obtain ⟨hpinned, rfl⟩ := Prod.mk.inj (Except.ok.inj hscript)
    refine ⟨manifest, hread, hpin.resolve_left fun hnone => ?_⟩
    rw [hnone] at hpinned
    cases hpinned

end Ezcap.Drivers
