import Ezcap.Library.Url
import Ezcap.Model.PolicyEngine
import Ezcap.Verification.Redactor.Equations

/-! Exclusion of sensitive domains. The redactor compares the whole authority of a URL
with the policy's entries, so user information and a port take part in the comparison. -/

namespace Ezcap.Redactor

open StdString

/-! ## The authority of a URL -/

theorem colon_notMem_scheme (url : Url) : ':'.toUInt8 ∉ url.scheme :=
  fun h => url.scheme_chars _ h (by decide)

theorem hostStart_text (url : Url) : hostStart url.text = url.scheme.length + 3 :=
  hostStart_append (colon_notMem_scheme url) _

theorem urlHost_text (url : Url) : urlHost url.text = url.authority :=
  urlHost_append (colon_notMem_scheme url) url.authority_chars url.rest_head

/-! ## What is left when the URL is not excluded -/

theorem head?_cutAt {s : Bytes} {i : Option ℕ} (hi : i ≠ some 0) : (cutAt s i).head? = s.head? := by
  cases i with
  | none => rfl
  | some n => simpa [cutAt, List.head?_take] using fun h => absurd h (by simpa using hi)

theorem find_ne_zero {s : Bytes} {c d : UInt8} (hd : s.head? = some d) (hne : d ≠ c) :
    find s c 0 ≠ some 0 := by
  obtain ⟨t, rfl⟩ : ∃ t, s = d :: t := by
    cases s with
    | nil => simp at hd
    | cons x t => exact ⟨t, by simpa using hd⟩
  simp [find, findFirstOf, List.findIdx?_cons, hne]

theorem find_ne_zero_of_pos {s : Bytes} {c : UInt8} {pos : ℕ} (hpos : 0 < pos) :
    find s c pos ≠ some 0 := by
  intro h
  simp only [find, findFirstOf, Option.map_eq_some_iff] at h
  obtain ⟨j, _, hj⟩ := h
  omega

/-- Stripping keeps the first character, unless it starts a fragment or a query. -/
theorem head?_stripUrl (policy : Policy) {url : Bytes} {d : UInt8} (hd : url.head? = some d)
    (hf : d ≠ '#'.toUInt8) (hq : d ≠ '?'.toUInt8) : (stripUrl policy url).1.head? = some d := by
  unfold stripUrl
  dsimp only
  have hcut : (cutAt url (if policy.stripFragment then find url '#'.toUInt8 0 else none)).head? =
      some d := by
    rw [head?_cutAt, hd]
    split
    · exact find_ne_zero hd hf
    · simp
  rw [head?_cutAt, hcut]
  split
  · exact find_ne_zero hcut hq
  · simp

/-- Past the exclusion check the scheme's first character is always kept. -/
theorem head?_transformUrl (policy : Policy) {url : Bytes} {d : UInt8} (hd : url.head? = some d)
    (hf : d ≠ '#'.toUInt8) (hq : d ≠ '?'.toUInt8) (hstart : 0 < hostStart url) :
    (transformUrl policy url).1.head? = some d := by
  have hstrip := head?_stripUrl policy hd hf hq
  have hkeep : (keepHostname (findSub (cstr "://") url) (hostStart url)
      (stripUrl policy url).1 (stripUrl policy url).2).1.head? = some d := by
    unfold keepHostname
    split_ifs
    · rw [head?_cutAt (find_ne_zero_of_pos hstart), hstrip]
    · exact hstrip
  have hsplice : (spliceHostname policy (findSub (cstr "://") url) (hostStart url) (urlHost url)
      (stripUrl policy url).1 (stripUrl policy url).2).1.head? = some d := by
    unfold spliceHostname
    dsimp only
    split
    · simp [List.head?_append, List.head?_take, hstrip, Nat.pos_iff_ne_zero.mp hstart]
    · exact hstrip
  unfold transformUrl
  dsimp only
  split <;> assumption

theorem transformUrl_text_ne_nil (policy : Policy) (url : Url) :
    (transformUrl policy url.text).1 ≠ [] := by
  obtain ⟨d, scheme, hscheme⟩ := List.exists_cons_of_ne_nil url.scheme_ne_nil
  have hmem : d ∉ cstr ":/?#" := url.scheme_chars d (by simp [hscheme])
  have hd : url.text.head? = some d := by simp [Url.text, hscheme]
  have hhead := head?_transformUrl policy hd (fun h => hmem (by rw [h]; decide))
    (fun h => hmem (by rw [h]; decide)) (by rw [hostStart_text]; omega)
  intro h
  simp [h] at hhead

/-- A URL is dropped exactly when its authority is under some entry. -/
theorem redactUrl_text_eq_nil (policy : Policy) (url : Url) :
    (redactUrl policy url.text).1 = [] ↔ domainExcluded policy url.authority = true := by
  rw [redactUrl, urlHost_text]
  by_cases h : domainExcluded policy url.authority = true
  · simp [h, url.authority_ne_nil]
  · simp [h, transformUrl_text_ne_nil policy url]

/-! ## Hosts and authorities under a domain -/

/-- `host` is `domain` or one of its subdomains, up to ASCII case. -/
def Under (host domain : Bytes) : Prop :=
  toLower host = toLower domain ∨ ('.'.toUInt8 :: toLower domain) <:+ toLower host

instance (host domain : Bytes) : Decidable (Under host domain) :=
  inferInstanceAs (Decidable (_ ∨ _))

/-- `host` is a proper subdomain of `domain`, up to ASCII case. -/
def Below (host domain : Bytes) : Prop := ('.'.toUInt8 :: toLower domain) <:+ toLower host

theorem lowerChar_eq_iff {c x : UInt8} (hc : c < 'A'.toUInt8) : lowerChar x = c ↔ x = c := by
  constructor
  · intro h
    by_contra hne
    unfold lowerChar at h
    split_ifs at h with hx
    · subst h
      simp only [UInt8.le_iff_toNat_le, UInt8.lt_iff_toNat_lt, UInt8.toNat_add, UInt8.toNat_sub,
        show 'A'.toUInt8.toNat = 65 from rfl, show 'Z'.toUInt8.toNat = 90 from rfl,
        show 'a'.toUInt8.toNat = 97 from rfl] at hx hc
      omega
    · exact hne h
  · rintro rfl
    exact lowerChar_of_lt hc

theorem mem_toLower {c : UInt8} {s : Bytes} (hc : c < 'A'.toUInt8) : c ∈ toLower s ↔ c ∈ s := by
  simp [toLower, lowerChar_eq_iff hc]

/-- Behind a port no entry without a colon matches. -/
theorem not_under_port {s d p : Bytes} (hd : ':'.toUInt8 ∉ d)
    (hp : ∀ c ∈ p, '0'.toUInt8 ≤ c ∧ c ≤ '9'.toUInt8) :
    ¬ Under (s ++ ':'.toUInt8 :: p) d := by
  have hlower : ':'.toUInt8 ∉ toLower d := fun h => hd ((mem_toLower (by decide)).mp h)
  rintro (h | h)
  · rw [← h] at hlower
    exact hlower ((mem_toLower (by decide)).mpr (by simp))
  · rw [toLower_append, toLower_cons, lowerChar_of_lt (by decide),
      suffix_append_cons_iff (by simpa using ⟨by decide, hlower⟩)] at h
    have hdot : '.'.toUInt8 ∈ p := (mem_toLower (by decide)).mp (h.subset (by simp))
    exact absurd (hp _ hdot) (by decide)

/-- Behind user information an entry without an at sign matches its proper subdomains only. -/
theorem under_userinfo_iff {u host d : Bytes} (hd : '@'.toUInt8 ∉ d) :
    Under (u ++ '@'.toUInt8 :: host) d ↔ Below host d := by
  have hlower : '@'.toUInt8 ∉ toLower d := fun h => hd ((mem_toLower (by decide)).mp h)
  rw [Under, Below, toLower_append, toLower_cons, lowerChar_of_lt (by decide),
    suffix_append_cons_iff (by simpa using ⟨by decide, hlower⟩), or_iff_right_iff_imp]
  intro h
  rw [← h] at hlower
  simp at hlower

/-- Which URLs an ordinary entry matches: those without a port whose host is under it, and
with user information only those whose host is a proper subdomain. -/
theorem under_authority_iff (url : Url) {d : Bytes} (hat : '@'.toUInt8 ∉ d)
    (hcolon : ':'.toUInt8 ∉ d) :
    Under url.authority d ↔
      url.port = none ∧ (url.userinfo = none ∧ Under url.host d ∨ Below url.host d) := by
  cases hp : url.port with
  | some p =>
      have hnot := not_under_port (s := url.userinfo.elim [] (· ++ ['@'.toUInt8]) ++ url.host)
        hcolon (url.port_chars p hp)
      simpa [Url.authority, hp] using hnot
  | none =>
      cases hu : url.userinfo with
      | none =>
          have hbelow : Below url.host d → Under url.host d := .inr
          simpa [Url.authority, hp, hu] using hbelow
      | some u => simpa [Url.authority, hp, hu] using under_userinfo_iff hat

/-! ## Exclusion by host -/

theorem apply_browser_eq_none {policy : Policy} {event : Event} {browser : BrowserInfo}
    (hm : event.privacy.metadataOnly = true) (hb : event.browser = some browser)
    (hurl : browser.url ≠ []) (hredact : (redactUrl policy browser.url).1 = []) :
    (PolicyEngine.apply policy event).1.browser = none := by
  simp [PolicyEngine.apply, hm, hb, PolicyEngine.redactBrowser, hurl, hredact]

theorem text_ne_nil (url : Url) : url.text ≠ [] := by
  simp [Url.text, url.scheme_ne_nil]

/-- For a URL whose host is under an entry: it is emptied, and with it the browser association
of every event removed, exactly when it has no port and either no user information or a
host properly below an entry. The last disjunct is for entries that are no host names. -/
theorem sensitive_host_excluded_iff (policy : Policy) (d : Bytes)
    (hd : d ∈ policy.sensitiveDomains) (url : Url) (hhost : Under url.host d) :
    ((redactUrl policy url.text).1 = [] ∧
      ∀ (event : Event) (browser : BrowserInfo), event.privacy.metadataOnly = true →
        event.browser = some browser → browser.url = url.text →
        (PolicyEngine.apply policy event).1.browser = none) ↔
    (url.port = none ∧ (url.userinfo = none ∨ ∃ d' ∈ policy.sensitiveDomains, Below url.host d')) ∨
      ∃ d' ∈ policy.sensitiveDomains, ('@'.toUInt8 ∈ d' ∨ ':'.toUInt8 ∈ d') ∧
        Under url.authority d' := by
  have hiff : (redactUrl policy url.text).1 = [] ↔
      ∃ d' ∈ policy.sensitiveDomains, Under url.authority d' :=
    (redactUrl_text_eq_nil policy url).trans (domainExcluded_iff policy url.authority)
  have happly : (redactUrl policy url.text).1 = [] →
      ∀ (event : Event) (browser : BrowserInfo), event.privacy.metadataOnly = true →
        event.browser = some browser → browser.url = url.text →
        (PolicyEngine.apply policy event).1.browser = none := by
    intro h event browser hm hb hurl
    rw [← hurl] at h
    exact apply_browser_eq_none hm hb (by rw [hurl]; exact text_ne_nil url) h
  rw [and_iff_left_of_imp happly, hiff]
  constructor
  · rintro ⟨d', hd', hunder⟩
    by_cases hodd : '@'.toUInt8 ∈ d' ∨ ':'.toUInt8 ∈ d'
    · exact .inr ⟨d', hd', hodd, hunder⟩
    · rw [not_or] at hodd
      rw [under_authority_iff url hodd.1 hodd.2] at hunder
      refine .inl ⟨hunder.1, hunder.2.imp And.left fun hbelow => ⟨d', hd', hbelow⟩⟩
  · rintro (⟨hport, huser | ⟨d', hd', hbelow⟩⟩ | ⟨d', hd', -, hunder⟩)
    · exact ⟨d, hd, by simpa [Url.authority, hport, huser] using hhost⟩
    · refine ⟨d', hd', .inr ?_⟩
      rw [Url.authority, hport, Option.elim_none, List.append_nil, toLower_append]
      exact hbelow.trans (List.suffix_append _ _)
    · exact ⟨d', hd', hunder⟩

/-- With `bank.example` sensitive, a user name or a port brings its URLs through. -/
theorem sensitive_host_kept :
    let policy : Policy := { sensitiveDomains := [cstr "bank.example"] }
    let user : Url :=
      { scheme := cstr "https", userinfo := some (cstr "me"), host := cstr "bank.example" }
    let port : Url :=
      { scheme := cstr "https", host := cstr "bank.example", port := some (cstr "8443") }
    (Under user.host (cstr "bank.example") ∧
      (redactUrl policy user.text).1 = cstr "https://me@bank.example" ∧
      (PolicyEngine.apply policy { browser := some { url := user.text } }).1.browser =
        some { url := user.text }) ∧
    (Under port.host (cstr "bank.example") ∧
      (redactUrl policy port.text).1 = cstr "https://bank.example:8443" ∧
      (PolicyEngine.apply policy { browser := some { url := port.text } }).1.browser =
        some { url := port.text }) := by
  decide

/-- A subdomain in capitals, with path and query. -/
theorem sensitive_subdomain_excluded :
    let policy : Policy := { sensitiveDomains := [cstr "bank.example"] }
    let url : Url :=
      { scheme := cstr "https", host := cstr "WWW.Bank.example", path := cstr "/login",
        query := some (cstr "id=1") }
    (redactUrl policy url.text).1 = [] :=
  ((sensitive_host_excluded_iff { sensitiveDomains := [cstr "bank.example"] } (cstr "bank.example")
    (by simp)
    { scheme := cstr "https", host := cstr "WWW.Bank.example", path := cstr "/login",
      query := some (cstr "id=1") }
    (.inr (by decide))).mpr (.inl ⟨rfl, .inl rfl⟩)).1

end Ezcap.Redactor
