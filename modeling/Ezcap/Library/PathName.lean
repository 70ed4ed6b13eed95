import Ezcap.Library.StdString

/-! Absolute path names, as text and as their components. -/

namespace PathName

def slash : UInt8 := '/'.toUInt8

/-- A component that names an entry of the directory before it. -/
structure IsComponent (c : Bytes) : Prop where
  ne_nil : c ≠ []
  no_slash : slash ∉ c
  no_nul : 0 ∉ c
  ne_dot : c ≠ ['.'.toUInt8]
  ne_dotDot : c ≠ ['.'.toUInt8, '.'.toUInt8]

instance (c : Bytes) : Decidable (IsComponent c) :=
  decidable_of_iff
    (c ≠ [] ∧ slash ∉ c ∧ 0 ∉ c ∧ c ≠ ['.'.toUInt8] ∧ c ≠ ['.'.toUInt8, '.'.toUInt8])
    ⟨fun ⟨h₁, h₂, h₃, h₄, h₅⟩ => ⟨h₁, h₂, h₃, h₄, h₅⟩, fun ⟨h₁, h₂, h₃, h₄, h₅⟩ =>
      ⟨h₁, h₂, h₃, h₄, h₅⟩⟩

structure Canonical where
  components : List Bytes
  isComponent : ∀ c ∈ components, IsComponent c

/-- Every component behind a slash. -/
def joined (components : List Bytes) : Bytes := components.flatMap (slash :: ·)

@[simp] theorem joined_nil : joined [] = [] := rfl

@[simp] theorem joined_cons (c : Bytes) (components : List Bytes) :
    joined (c :: components) = slash :: (c ++ joined components) := by
  simp [joined]

theorem joined_append (a b : List Bytes) : joined (a ++ b) = joined a ++ joined b := by
  simp [joined]

namespace Canonical

/-- The text of a path; only the root ends in a slash. -/
def text (p : Canonical) : Bytes := if p.components = [] then [slash] else joined p.components

/-- A text for the path, with a slash at its end or without. The empty text is not one. -/
def Spells (p : Canonical) (s : Bytes) : Prop :=
  s ≠ [] ∧ (s = joined p.components ∨ s = joined p.components ++ [slash])

end Canonical

/-! ## Text and components -/

theorem eq_nil_of_append {a d s t : Bytes} (hd : slash ∉ d ++ a) (hs : ∀ x ∈ s.head?, x = slash)
    (h : s = a ++ t) : a = [] := by
  cases a with
  | nil => rfl
  | cons x a =>
      have hx : x = slash := hs x (by rw [h]; rfl)
      rw [hx] at hd
      exact absurd (List.mem_append_right d List.mem_cons_self) hd

/-- What stands before the first slash, and what from there on. -/
theorem eq_of_append_eq {c d s t : Bytes} (hc : slash ∉ c) (hd : slash ∉ d)
    (hs : ∀ x ∈ s.head?, x = slash) (ht : ∀ x ∈ t.head?, x = slash) (h : c ++ s = d ++ t) :
    c = d ∧ s = t := by
  rcases List.append_eq_append_iff.mp h with ⟨a, rfl, hrest⟩ | ⟨a, rfl, hrest⟩
  · obtain rfl := eq_nil_of_append hd hs hrest
    exact ⟨(List.append_nil c).symm, hrest⟩
  · obtain rfl := eq_nil_of_append hc ht hrest
    exact ⟨List.append_nil d, hrest.symm⟩

theorem head?_joined (components : List Bytes) : ∀ x ∈ (joined components).head?, x = slash := by
  cases components with
  | nil => simp
  | cons c components => simp [eq_comm]

/-- Components whose text ends where another text ends or has a slash begin the components of the
other text. -/
theorem prefix_of_joined {ds cs : List Bytes} {rest : Bytes} (hds : ∀ d ∈ ds, slash ∉ d)
    (hcs : ∀ c ∈ cs, slash ∉ c) (hrest : ∀ x ∈ rest.head?, x = slash)
    (h : joined ds ++ rest = joined cs) : ds <+: cs := by
  induction ds generalizing cs with
  | nil => exact List.nil_prefix
  | cons d ds ih =>
      rw [joined_cons] at h
      cases cs with
      | nil => simp at h
      | cons c cs =>
          rw [List.forall_mem_cons] at hds hcs
          rw [joined_cons, List.cons_append, List.cons_inj_right, List.append_assoc] at h
          have hhead : ∀ x ∈ (joined ds ++ rest).head?, x = slash := by
            cases ds with
            | nil => simpa using hrest
            | cons d' ds => simp [eq_comm]
          obtain ⟨rfl, htail⟩ := eq_of_append_eq hds.1 hcs.1 hhead (head?_joined cs) h
          exact List.cons_prefix_cons.mpr ⟨rfl, ih hds.2 hcs.2 htail⟩

/-! ## Canonical paths -/

namespace Canonical

variable {d p : Canonical}

theorem no_slash (p : Canonical) : ∀ c ∈ p.components, slash ∉ c :=
  fun c hc => (p.isComponent c hc).no_slash

theorem text_no_nul (p : Canonical) : 0 ∉ p.text := by
  have hslash : (0 : UInt8) ≠ slash := by decide
  have hjoined : 0 ∉ joined p.components := by
    intro hmem
    obtain ⟨c, hc, hzero⟩ := List.mem_flatMap.mp hmem
    rcases List.mem_cons.mp hzero with hzero | hzero
    · exact hslash hzero
    · exact (p.isComponent c hc).no_nul hzero
  unfold text
  split_ifs
  · simpa using hslash
  · exact hjoined

theorem getLast?_joined (p : Canonical) : (joined p.components).getLast? ≠ some slash := by
  intro hlast
  rcases List.eq_nil_or_concat p.components with hnil | ⟨init, c, hconcat⟩
  · simp [hnil] at hlast
  · have hc : IsComponent c := p.isComponent c (by simp [hconcat])
    rw [hconcat, List.concat_eq_append, joined_append, joined_cons, joined_nil, List.append_nil,
      List.getLast?_append, List.getLast?_cons, List.getLast?_eq_some_getLast hc.ne_nil] at hlast
    have heq : c.getLast hc.ne_nil = slash := by simpa using hlast
    exact hc.no_slash (heq ▸ List.getLast_mem hc.ne_nil)

theorem components_eq_nil (p : Canonical) (h : (joined p.components).length ≤ 1) :
    p.components = [] := by
  cases hcomponents : p.components with
  | nil => rfl
  | cons c components =>
      have hc := (p.isComponent c (by simp [hcomponents])).ne_nil
      rw [hcomponents, joined_cons, List.length_cons, List.length_append] at h
      have hpos := List.length_pos_iff.mpr hc
      omega

/-- A path that begins with a text of another one, up to its end or to a slash, lies below it. -/
theorem prefix_of_spells {s rest : Bytes} (hs : d.Spells s) (htext : p.text = s ++ rest)
    (hboundary : rest = [] ∨ s.getLast? = some slash ∨ rest.head? = some slash) :
    d.components <+: p.components := by
  obtain ⟨rest', hrest, htext⟩ : ∃ rest', (∀ x ∈ rest'.head?, x = slash) ∧
      p.text = joined d.components ++ rest' := by
    rcases hs.2 with rfl | rfl
    · refine ⟨rest, ?_, htext⟩
      rcases hboundary with rfl | hlast | hhead
      · simp
      · exact absurd hlast d.getLast?_joined
      · simp [hhead, eq_comm]
    · exact ⟨slash :: rest, by simp [eq_comm], by simpa using htext⟩
  unfold text at htext
  split_ifs at htext with hroot
  · -- the text of the root is too short for a component
    have hlength := congrArg List.length htext
    rw [List.length_append, List.length_singleton] at hlength
    rw [d.components_eq_nil (by omega)]
    exact List.nil_prefix
  · exact prefix_of_joined d.no_slash p.no_slash hrest htext.symm

theorem text_of_below {below : List Bytes} (h : p.components = d.components ++ below)
    (hbelow : below ≠ []) : ∃ rest, p.text = joined d.components ++ slash :: rest := by
  obtain ⟨c, below, rfl⟩ := List.exists_cons_of_ne_nil hbelow
  refine ⟨c ++ joined below, ?_⟩
  rw [text, if_neg (by simp [h]), h, joined_append, joined_cons]

end Canonical

end PathName
