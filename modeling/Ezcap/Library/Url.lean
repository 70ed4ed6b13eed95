import Ezcap.Library.StdString

/-! Hierarchical URLs, `scheme://[userinfo@]host[:port][/path][?query][#fragment]`. -/

open StdString

/-- The parts of a URL, each without the characters that would end it. -/
structure Url where
  scheme : Bytes
  userinfo : Option Bytes := none
  host : Bytes
  port : Option Bytes := none
  path : Bytes := []
  query : Option Bytes := none
  fragment : Option Bytes := none
  scheme_ne_nil : scheme ≠ [] := by decide
  scheme_chars : ∀ c ∈ scheme, c ∉ cstr ":/?#" := by decide +kernel
  userinfo_chars : ∀ u ∈ userinfo, ∀ c ∈ u, c ∉ cstr "/?#" := by decide +kernel
  host_ne_nil : host ≠ [] := by decide
  host_chars : ∀ c ∈ host, c ∉ cstr "/?#@" := by decide +kernel
  /-- A colon only inside the brackets of an IP literal. -/
  host_colon : ':'.toUInt8 ∈ host → host.head? = some '['.toUInt8 := by decide
  port_chars : ∀ p ∈ port, ∀ c ∈ p, '0'.toUInt8 ≤ c ∧ c ≤ '9'.toUInt8 := by decide +kernel
  path_head : ∀ c ∈ path.head?, c = '/'.toUInt8 := by decide +kernel
  path_chars : ∀ c ∈ path, c ∉ cstr "?#" := by decide +kernel
  query_chars : ∀ q ∈ query, '#'.toUInt8 ∉ q := by decide

namespace Url

/-- `[userinfo@]host[:port]` -/
def authority (url : Url) : Bytes :=
  (url.userinfo.elim [] (· ++ ['@'.toUInt8])) ++ url.host ++ url.port.elim [] (':'.toUInt8 :: ·)

/-- `[/path][?query][#fragment]` -/
def rest (url : Url) : Bytes :=
  url.path ++ url.query.elim [] ('?'.toUInt8 :: ·) ++ url.fragment.elim [] ('#'.toUInt8 :: ·)

def text (url : Url) : Bytes := url.scheme ++ (cstr "://" ++ (url.authority ++ url.rest))

private theorem delimiter_mem : ∀ c ∈ cstr "/?#", c ∈ cstr "/?#@" :=
  forall_mem_of_all (by decide)

private theorem delimiter_not_digit :
    ∀ c ∈ cstr "/?#", ¬ ('0'.toUInt8 ≤ c ∧ c ≤ '9'.toUInt8) :=
  forall_mem_of_all (by decide)

theorem authority_ne_nil (url : Url) : url.authority ≠ [] := by
  simp [authority, url.host_ne_nil]

theorem authority_chars (url : Url) : ∀ c ∈ url.authority, c ∉ cstr "/?#" := by
  intro c hc
  simp only [authority, List.mem_append] at hc
  rcases hc with (hc | hc) | hc
  · cases hu : url.userinfo with
    | none => simp [hu] at hc
    | some u =>
        simp only [hu, Option.elim_some, List.mem_append, List.mem_singleton] at hc
        rcases hc with hc | rfl
        · exact url.userinfo_chars u hu c hc
        · decide
  · exact fun hmem => url.host_chars c hc (delimiter_mem c hmem)
  · cases hp : url.port with
    | none => simp [hp] at hc
    | some p =>
        simp only [hp, Option.elim_some, List.mem_cons] at hc
        rcases hc with rfl | hc
        · decide
        · exact fun hmem => delimiter_not_digit c hmem (url.port_chars p hp c hc)

/-- After the authority comes the end of the URL or one of its delimiters. -/
theorem rest_head (url : Url) : ∀ c ∈ url.rest.head?, c ∈ cstr "/?#" := by
  intro c hc
  cases hpath : url.path with
  | cons d path =>
      obtain rfl : d = c := by simpa [rest, hpath] using hc
      rw [url.path_head d (by simp [hpath])]
      decide
  | nil =>
      cases hq : url.query with
      | some q =>
          obtain rfl : '?'.toUInt8 = c := by simpa [rest, hpath, hq] using hc
          decide
      | none =>
          cases hf : url.fragment with
          | some f =>
              obtain rfl : '#'.toUInt8 = c := by simpa [rest, hpath, hq, hf] using hc
              decide
          | none => simp [rest, hpath, hq, hf] at hc

end Url
