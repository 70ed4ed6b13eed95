import Ezcap.Library.Control
import Ezcap.Model.Ipc

/-! What the parser accepts as a request. -/

namespace Ezcap.Ipc

open StdString

variable {lib : JsonLib}

theorem readOperation_eq_ok {doc : Json} {operation : Operation} :
    readOperation doc = .ok operation ↔
      ∃ name, (doc.field? (cstr "operation")).bind Json.string? = some name ∧
        operationFromName name = some operation := by
  unfold readOperation
  constructor
  · intro h
    split at h
    · cases h
    · rename_i name hname
      refine ⟨name, hname, ?_⟩
      split at h
      · cases h
      · cases h
        assumption
  · rintro ⟨name, hname, hoperation⟩
    simp only [hname, hoperation]

theorem readRequestId_eq_ok {doc : Json} {requestId : Bytes} :
    readRequestId doc = .ok requestId ↔
      (doc.field? (cstr "request_id")).bind Json.string? = some requestId ∧
        requestId ≠ [] ∧ requestId.length ≤ 64 := by
  unfold readRequestId
  constructor
  · intro h
    split at h
    · cases h
    · rename_i value hvalue
      split_ifs at h with hlength
      cases h
      simp only [not_or, gt_iff_lt, not_lt] at hlength
      exact ⟨hvalue, hlength⟩
  · rintro ⟨hvalue, hne, hlength⟩
    simp [hvalue, hne, Nat.not_lt.mpr hlength]

theorem readParams_eq_ok {doc : Json} {paramsJson : Bytes}
    (h : readParams lib doc = .ok paramsJson) :
    paramsJson = [] ∨ ∃ params, doc.field? (cstr "params") = some params ∧
      params.isObject = true ∧ lib.dump params = some paramsJson := by
  unfold readParams at h
  split at h
  · cases h
    exact .inl rfl
  · rename_i params hparams
    split at h
    · cases h
    · rename_i fields hfields
      split_ifs at h
      split at h
      · cases h
      · rename_i text hdump
        cases h
        refine .inr ⟨params, hparams, ?_, hdump⟩
        cases params <;> simp_all [Json.object?, Json.isObject]

/-- A document that is accepted as a request. -/
structure Accepted (lib : JsonLib) (doc : Json) (request : Request) : Prop where
  isObject : doc.isObject = true
  allowed : hasForbiddenField doc = false
  version : checkVersion doc = .ok ()
  operation : readOperation doc = .ok request.operation
  requestId : readRequestId doc = .ok request.requestId
  params : readParams lib doc = .ok request.paramsJson

theorem readRequest_eq_ok {doc : Json} {request : Request} :
    readRequest lib doc = .ok request ↔
      checkVersion doc = .ok () ∧ readOperation doc = .ok request.operation ∧
        readRequestId doc = .ok request.requestId ∧
        readParams lib doc = .ok request.paramsJson := by
  unfold readRequest
  constructor
  · intro h
    obtain ⟨_, hversion, h⟩ := Except.bind_eq_ok_iff.mp h
    obtain ⟨operation, hoperation, h⟩ := Except.bind_eq_ok_iff.mp h
    obtain ⟨requestId, hid, h⟩ := Except.bind_eq_ok_iff.mp h
    obtain ⟨params, hparams, rfl⟩ := Except.map_eq_ok_iff.mp h
    exact ⟨hversion, hoperation, hid, hparams⟩
  · rintro ⟨hversion, hoperation, hid, hparams⟩
    simp [hversion, hoperation, hid, hparams, Except.bind, Except.map]

theorem parseRequest_eq_ok {frame : Bytes} {maxBytes : ℕ} {request : Request} :
    parseRequest lib frame maxBytes = .ok request ↔
      frame.length ≤ maxBytes ∧ ∃ doc, lib.parse frame = some doc ∧ Accepted lib doc request := by
  unfold parseRequest
  constructor
  · intro h
    split_ifs at h with hlength
    refine ⟨Nat.not_lt.mp hlength, ?_⟩
    split at h
    · cases h
    · rename_i doc hdoc
      split_ifs at h with hobject hforbidden
      obtain ⟨hversion, hoperation, hid, hparams⟩ := readRequest_eq_ok.mp h
      exact ⟨doc, hdoc, hobject, Bool.eq_false_iff.mpr hforbidden, hversion, hoperation, hid,
        hparams⟩
  · rintro ⟨hlength, doc, hdoc, haccepted⟩
    simp only [Nat.not_lt.mpr hlength, if_false, hdoc, haccepted.isObject, if_true,
      haccepted.allowed, Bool.false_eq_true]
    exact readRequest_eq_ok.mpr ⟨haccepted.version, haccepted.operation, haccepted.requestId,
      haccepted.params⟩

end Ezcap.Ipc
