import Ezcap.Model.NativeHost
import Ezcap.Verification.Ipc.RoundTrip

/-! What the daemon reads in the frames that the host sends. -/

namespace Ezcap.NativeHost

open StdString Ipc

variable {lib : JsonLib} {round : ℚ → ℚ}

theorem operationFromName_operationName (operation : Operation) :
    operationFromName (operationName operation) = some operation := by
  cases operation <;> decide +kernel

theorem operationName_of_operationFromName {name : Bytes} {operation : Operation}
    (h : operationFromName name = some operation) : operationName operation = name := by
  unfold operationFromName at h
  split_ifs at h <;> cases h <;> symm <;> assumption

/-! ## The request of a message -/

theorem buildRequest_ok {message : Message} {operation : Operation} {request : Request}
    (h : (buildRequest lib message operation).answer = some request) :
    request.operation = operation ∧ request.requestId = message.requestId ∧
      (paramsText lib message.payload).answer = some request.paramsJson := by
  unfold buildRequest at h
  cases hparams : (paramsText lib message.payload).answer with
  | none => simp [Bind.bind, Host.bind, hparams] at h
  | some text =>
      simp only [Bind.bind, Host.bind, hparams, Pure.pure, Option.some.injEq] at h
      simp [← h]

/-! ## The document of a request -/

section Document

variable {request : Request}

/-- The members of a request document. -/
def requestFields (lib : JsonLib) (request : Request) : List (Bytes × Json) :=
  [(cstr "protocol_version", .unsigned kProtocolVersion.toNat),
   (cstr "operation", .string (operationName request.operation)),
   (cstr "request_id", .string request.requestId)] ++
  fieldIf (request.paramsJson != []) (cstr "params") ((lib.parse request.paramsJson).getD .null)

theorem nodup_requestFields (lib : JsonLib) (request : Request) :
    ((requestFields lib request).map Prod.fst).Nodup := by
  unfold requestFields fieldIf
  split <;> simp

theorem isWellFormed_requestJson (hround : lib.RoundTrip round) (request : Request) :
    (requestJson lib request).isWellFormed = true := by
  have hparams : ((lib.parse request.paramsJson).getD .null).isWellFormed = true := by
    cases hparse : lib.parse request.paramsJson with
    | none => exact Json.isWellFormed_null
    | some doc => exact hround.isWellFormed_of_parse hparse
  refine Json.isWellFormed_mkObject (nodup_requestFields lib request) ?_
  exact (Assigned.append (assigned_all (by simp [kProtocolVersion]))
    (assigned_fieldIf _ hparams)).values

theorem field?_requestJson {key : Bytes} {value : Json} :
    (requestJson lib request).field? key = some value ↔
      (key, value) ∈ requestFields lib request :=
  Json.field?_mkObject_eq_some (nodup_requestFields lib request)

theorem field?_requestJson_eq_none {key : Bytes} :
    (requestJson lib request).field? key = none ↔
      key ∉ (requestFields lib request).map Prod.fst :=
  Json.field?_mkObject_eq_none

/-! ## Its frame -/

theorem requestFrame_eq_some {frame : Bytes}
    (h : (requestFrame lib request).answer = some (some (frame ++ cstr "\n"))) :
    lib.dump (requestJson lib request) = some frame ∧ frame.length ≤ kMaxRequestBytes := by
  unfold requestFrame at h
  cases hdump : lib.dump (requestJson lib request) with
  | none => simp [hdump, Host.orThrow, Bind.bind, Host.bind] at h
  | some text =>
      simp only [hdump, Host.orThrow, Bind.bind, Host.bind, Pure.pure] at h
      split at h
      · cases h
      · rename_i hlength
        obtain rfl : text = frame := by simpa using h
        exact ⟨rfl, Nat.not_lt.mp hlength⟩

theorem parse_requestFrame (hround : lib.RoundTrip round) {frame : Bytes}
    (h : (requestFrame lib request).answer = some (some (frame ++ cstr "\n"))) :
    lib.parse frame = some ((requestJson lib request).reread round) :=
  hround.parse_dump (isWellFormed_requestJson hround request) (requestFrame_eq_some h).1

theorem string_reread {key : Bytes} (text : Bytes)
    (h : (key, .string text) ∈ requestFields lib request) :
    (((requestJson lib request).reread round).field? key).bind Json.string? = some text := by
  rw [Json.field?_reread, field?_requestJson.mpr h]
  simp [Json.string?]

/-- Whatever request the daemon accepts in a frame of the host, it has the operation and the id
of the one that was sent. -/
theorem parseRequest_requestFrame (hround : lib.RoundTrip round) {request' : Request}
    {frame : Bytes} {maxBytes : ℕ}
    (hframe : (requestFrame lib request).answer = some (some (frame ++ cstr "\n")))
    (hparse : parseRequest lib frame maxBytes = .ok request') :
    request'.operation = request.operation ∧ request'.requestId = request.requestId := by
  obtain ⟨-, doc, hdoc, haccepted⟩ := parseRequest_eq_ok.mp hparse
  obtain rfl := Option.some.inj ((parse_requestFrame hround hframe).symm.trans hdoc)
  obtain ⟨name, hname, hfrom⟩ := readOperation_eq_ok.mp haccepted.operation
  have hrequestId := (readRequestId_eq_ok.mp haccepted.requestId).1
  rw [string_reread (operationName request.operation) (by simp [requestFields])] at hname
  rw [string_reread request.requestId (by simp [requestFields])] at hrequestId
  obtain rfl := Option.some.inj hname
  rw [operationFromName_operationName] at hfrom
  exact ⟨(Option.some.inj hfrom).symm, (Option.some.inj hrequestId).symm⟩

end Document

end Ezcap.NativeHost
