import Ezcap.Model.NativeHost
import Ezcap.Verification.Ipc.Framing

/-! The stream of the daemon as its client reads it. The two splitters, `split_frames` and
`extract_frames`, lose nothing and agree; but the client measures its whole buffer before it
takes the complete frames out, so that a frame within the limit is refused when too much comes
with its end. -/

namespace Ezcap.NativeHost

open StdString Ipc Lines

/-! ## The two splitters -/

/-- The loop without a limit does what the server's does when nothing is too long. -/
theorem extractLoop_of_splitLoop {maxBytes fuel : ℕ} {rest : Bytes} {frames : List Bytes}
    {result : List Bytes × Bytes} (h : splitLoop maxBytes fuel rest frames = .ok result) :
    extractLoop fuel rest frames = result := by
  induction fuel generalizing rest frames with
  | zero =>
      cases h
      rfl
  | succ fuel ih =>
      rw [splitLoop] at h
      rw [extractLoop]
      cases hfind : find rest '\n'.toUInt8 0 with
      | none =>
          simp only [hfind] at h ⊢
          cases h
          rfl
      | some newline =>
          simp only [hfind] at h ⊢
          split_ifs at h
          exact ih h

theorem extractFrames_eq (buffer : Bytes) : extractFrames buffer = split '\n'.toUInt8 buffer := by
  have hjoin := join_split (d := '\n'.toUInt8) buffer
  have hloop := Server.splitLoop_join buffer.length
    (fun line hl => notMem_of_mem_split (s := buffer) hl) (notMem_rest buffer)
    (le_of_eq (congrArg List.length hjoin)) []
  rw [hjoin, if_pos fun line hl => (length_lt_of_mem_split hl).le] at hloop
  exact extractLoop_of_splitLoop hloop

/-- One step of the server: what was received is appended, and the frames are split off under a
limit. The state holds the frames delivered so far and the buffer. -/
def appendSplit (state : List Bytes × Bytes) (step : Bytes × ℕ) :
    Except IpcError (List Bytes × Bytes) :=
  (splitFrames (state.2 ++ step.1) step.2).map fun (frames, rest) => (state.1 ++ frames, rest)

/-- One step of the client. -/
def appendExtract (state : List Bytes × Bytes) (chunk : Bytes) : List Bytes × Bytes :=
  (state.1 ++ (extractFrames (state.2 ++ chunk)).1, (extractFrames (state.2 ++ chunk)).2)

theorem splitFrames_ok {buffer : Bytes} {maxBytes : ℕ} {result : List Bytes × Bytes}
    (h : splitFrames buffer maxBytes = .ok result) :
    result = split '\n'.toUInt8 buffer ∧ ∀ frame ∈ result.1, frame.length ≤ maxBytes := by
  rw [Server.splitFrames_eq] at h
  split at h
  · rename_i hsizes
    cases h
    exact ⟨rfl, hsizes.1⟩
  · cases h

theorem appendExtract_of_appendSplit {state next : List Bytes × Bytes} {step : Bytes × ℕ}
    (h : appendSplit state step = .ok next) : appendExtract state step.1 = next := by
  rw [appendSplit] at h
  cases hsplit : splitFrames (state.2 ++ step.1) step.2 with
  | error e =>
      rw [hsplit] at h
      cases h
  | ok result =>
      rw [hsplit] at h
      cases h
      rw [appendExtract, extractFrames_eq, (splitFrames_ok hsplit).1]

theorem foldl_appendExtract_of_appendSplit {steps : List (Bytes × ℕ)}
    {state last : List Bytes × Bytes} (h : steps.foldlM appendSplit state = .ok last) :
    (steps.map Prod.fst).foldl appendExtract state = last := by
  induction steps generalizing state with
  | nil =>
      cases h
      rfl
  | cons step steps ih =>
      rw [List.foldlM_cons] at h
      cases hstep : appendSplit state step with
      | error e =>
          rw [hstep] at h
          cases h
      | ok next =>
          rw [hstep] at h
          rw [List.map_cons, List.foldl_cons, appendExtract_of_appendSplit hstep]
          exact ih h

/-- However the stream is cut, the client ends up with its split. -/
theorem foldl_appendExtract {frames chunks : List Bytes} {buffer : Bytes}
    (hbuffer : '\n'.toUInt8 ∉ buffer) :
    chunks.foldl appendExtract (frames, buffer) =
      (frames ++ (split '\n'.toUInt8 (buffer ++ chunks.flatten)).1,
        (split '\n'.toUInt8 (buffer ++ chunks.flatten)).2) := by
  induction chunks generalizing frames buffer with
  | nil =>
      rw [List.flatten_nil, List.append_nil, split_of_notMem hbuffer, List.append_nil]
      rfl
  | cons chunk chunks ih =>
      rw [List.foldl_cons, appendExtract, extractFrames_eq, ih (notMem_rest _), List.flatten_cons,
        ← List.append_assoc, split_append (buffer ++ chunk), List.append_assoc]

/-- `split_frames` loses, duplicates and reorders nothing, in one call and over a run of any
length, and `extract_frames` gets the same out of the same stream, however it comes. -/
theorem split_frames_conserves :
    (∀ (buffer : Bytes) (maxBytes : ℕ) (frames : List Bytes) (rest : Bytes),
      splitFrames buffer maxBytes = .ok (frames, rest) →
        buffer = join '\n'.toUInt8 frames ++ rest ∧
        (∀ frame ∈ frames, '\n'.toUInt8 ∉ frame ∧ frame.length ≤ maxBytes) ∧
        '\n'.toUInt8 ∉ rest) ∧
    ∀ (steps : List (Bytes × ℕ)) (frames : List Bytes) (rest : Bytes),
      steps.foldlM appendSplit ([], []) = .ok (frames, rest) →
        (steps.map Prod.fst).flatten = join '\n'.toUInt8 frames ++ rest ∧
        ∀ chunks : List Bytes, chunks.flatten = (steps.map Prod.fst).flatten →
          chunks.foldl appendExtract ([], []) = (frames, rest) := by
  constructor
  · intro buffer maxBytes frames rest h
    obtain ⟨hsplit, hlength⟩ := splitFrames_ok h
    have hspec := split_spec (d := '\n'.toUInt8) buffer
    rw [← hsplit] at hspec
    exact ⟨hspec.1.symm, fun frame hf => ⟨hspec.2.1 frame hf, hlength frame hf⟩, hspec.2.2⟩
  · intro steps frames rest h
    have hrun (chunks : List Bytes) : chunks.foldl appendExtract ([], []) =
        split '\n'.toUInt8 chunks.flatten := by
      rw [foldl_appendExtract (by simp), List.nil_append, List.nil_append]
    have hsame := foldl_appendExtract_of_appendSplit h
    rw [hrun] at hsame
    constructor
    · rw [← join_split (d := '\n'.toUInt8) (steps.map Prod.fst).flatten, hsame]
    · intro chunks hchunks
      rw [hrun, hchunks, hsame]

/-! ## Repeated polls -/

/-- The polls that receive these chunks one after the other, up to the first that fails: all
frames that they return. A poll that succeeds leaves no complete frame in the buffer, so that
the next one goes on to receive. -/
def pollAll (client : DaemonClient) : List Bytes → Except Bytes (List Bytes)
  | [] => .ok []
  | chunk :: chunks =>
      match client.poll (.data chunk) with
      | (.error error, _) => .error error
      | (.ok frames, client) => (pollAll client chunks).map (frames ++ ·)

def oversized : Bytes := cstr "oversized frame from daemon"

section Poll

variable {buffer chunk : Bytes} (hbuffer : '\n'.toUInt8 ∉ buffer)

include hbuffer

theorem poll_fits (h : (buffer ++ chunk).length ≤ kMaxEventBytes) :
    DaemonClient.poll { rxBuffer := buffer } (.data chunk) =
      (.ok (split '\n'.toUInt8 (buffer ++ chunk)).1,
        { rxBuffer := (split '\n'.toUInt8 (buffer ++ chunk)).2 }) := by
  simp only [DaemonClient.poll, extractFrames_eq, split_of_notMem hbuffer, Nat.not_lt.mpr h]
  rfl

theorem poll_oversized (h : kMaxEventBytes < (buffer ++ chunk).length) :
    (DaemonClient.poll { rxBuffer := buffer } (.data chunk)).1 = .error oversized := by
  simp only [DaemonClient.poll, extractFrames_eq, split_of_notMem hbuffer, h]
  rfl

end Poll

theorem pollAll_cons {buffer chunk : Bytes} (hbuffer : '\n'.toUInt8 ∉ buffer)
    (h : (buffer ++ chunk).length ≤ kMaxEventBytes) (chunks : List Bytes) :
    pollAll { rxBuffer := buffer } (chunk :: chunks) =
      (pollAll { rxBuffer := (split '\n'.toUInt8 (buffer ++ chunk)).2 } chunks).map
        ((split '\n'.toUInt8 (buffer ++ chunk)).1 ++ ·) := by
  rw [pollAll, poll_fits hbuffer h]

theorem pollAll_oversized {buffer chunk : Bytes} (hbuffer : '\n'.toUInt8 ∉ buffer)
    (h : kMaxEventBytes < (buffer ++ chunk).length) (chunks : List Bytes) :
    pollAll { rxBuffer := buffer } (chunk :: chunks) = .error oversized := by
  have hpoll := poll_oversized hbuffer h
  rw [pollAll]
  split
  · rename_i hfail
    rw [hfail] at hpoll
    exact hpoll
  · rename_i hok
    rw [hok] at hpoll
    cases hpoll

/-- The only way to fail is an oversized buffer; otherwise all complete frames are returned. -/
theorem pollAll_cases (chunks : List Bytes) {buffer : Bytes} (hbuffer : '\n'.toUInt8 ∉ buffer) :
    pollAll { rxBuffer := buffer } chunks =
        .ok (split '\n'.toUInt8 (buffer ++ chunks.flatten)).1 ∨
      pollAll { rxBuffer := buffer } chunks = .error oversized := by
  induction chunks generalizing buffer with
  | nil =>
      left
      rw [List.flatten_nil, List.append_nil, split_of_notMem hbuffer, pollAll]
  | cons chunk chunks ih =>
      by_cases hfits : (buffer ++ chunk).length ≤ kMaxEventBytes
      · rw [pollAll_cons hbuffer hfits, List.flatten_cons, ← List.append_assoc,
          split_append (buffer ++ chunk)]
        apply Or.imp _ _ (ih (notMem_rest (buffer ++ chunk)))
        · intro hok
          rw [hok]
          rfl
        · intro herror
          rw [herror]
          rfl
      · exact .inr (pollAll_oversized hbuffer (Nat.not_le.mp hfits) chunks)

theorem length_le_of_pollAll_ok {before after : List Bytes} {buffer chunk : Bytes}
    {frames : List Bytes} (hbuffer : '\n'.toUInt8 ∉ buffer)
    (h : pollAll { rxBuffer := buffer } (before ++ chunk :: after) = .ok frames) :
    ((split '\n'.toUInt8 (buffer ++ before.flatten)).2 ++ chunk).length ≤ kMaxEventBytes := by
  induction before generalizing buffer frames with
  | nil =>
      rw [List.flatten_nil, List.append_nil, split_of_notMem hbuffer]
      by_contra hlong
      rw [List.nil_append, pollAll_oversized hbuffer (Nat.not_le.mp hlong)] at h
      cases h
  | cons first before ih =>
      by_cases hfits : (buffer ++ first).length ≤ kMaxEventBytes
      · rw [List.cons_append, pollAll_cons hbuffer hfits] at h
        rw [List.flatten_cons, ← List.append_assoc, split_append (buffer ++ first)]
        cases hrest : pollAll { rxBuffer := (split '\n'.toUInt8 (buffer ++ first)).2 }
            (before ++ chunk :: after) with
        | error e =>
            rw [hrest] at h
            cases h
        | ok later => exact ih (notMem_rest _) hrest
      · rw [List.cons_append, pollAll_oversized hbuffer (Nat.not_le.mp hfits)] at h
        cases h

/-! ## Streams of frames within the limit -/

/-- The size of the array that `recv` fills. -/
def recvBytes : ℕ := 8192

/-- One way in which `recv` hands over the stream. -/
structure IsReceived (stream : Bytes) (chunks : List Bytes) : Prop where
  flatten : chunks.flatten = stream
  length : ∀ chunk ∈ chunks, 1 ≤ chunk.length ∧ chunk.length ≤ recvBytes

/-- Every frame fits the buffer together with the most that can arrive with its newline. -/
def LeavesRoom (frames : List Bytes) : Prop :=
  ∀ before frame after, frames = before ++ frame :: after →
    frame.length + min recvBytes (1 + (join '\n'.toUInt8 after).length) ≤ kMaxEventBytes

theorem LeavesRoom.append_right {frames frames' : List Bytes} (h : LeavesRoom (frames ++ frames')) :
    LeavesRoom frames' := by
  intro before frame after hsplit
  exact h (frames ++ before) frame after (by rw [hsplit, List.append_assoc])

/-- A stream that fits the buffer as a whole leaves room for every frame. -/
theorem leavesRoom_of_length_le {frames : List Bytes}
    (h : (join '\n'.toUInt8 frames).length ≤ kMaxEventBytes) : LeavesRoom frames := by
  intro before frame after hsplit
  rw [hsplit] at h
  simp only [join_append, join_cons, List.length_append, List.length_cons] at h
  omega

/-- What is buffered belongs to the first frame that is not complete. -/
theorem LeavesRoom.length_le {frames : List Bytes} (h : LeavesRoom frames) {buffer chunk : Bytes}
    (hbuffer : '\n'.toUInt8 ∉ buffer) (hchunk : chunk.length ≤ recvBytes)
    (hstream : buffer ++ chunk <+: join '\n'.toUInt8 frames) :
    (buffer ++ chunk).length ≤ kMaxEventBytes := by
  cases frames with
  | nil =>
      rw [join_nil, List.prefix_nil] at hstream
      rw [hstream]
      exact Nat.zero_le _
  | cons frame frames =>
      have hroom := h [] frame frames rfl
      have hlength := hstream.length_le
      have hfirst : buffer.length ≤ frame.length := by
        -- otherwise the newline behind the frame would be in the buffer
        by_contra hlong
        have hwhole : frame ++ ['\n'.toUInt8] <+: buffer := by
          apply List.prefix_of_prefix_length_le _ ((List.prefix_append ..).trans hstream)
          · rw [List.length_append, List.length_singleton]
            exact Nat.not_le.mp hlong
          · simp
        exact hbuffer (hwhole.subset (by simp))
      rw [join_cons] at hlength
      simp only [List.length_append, List.length_cons] at hlength ⊢
      omega

theorem pollAll_of_leavesRoom {frames chunks : List Bytes} {buffer : Bytes}
    (hframes : ∀ frame ∈ frames, '\n'.toUInt8 ∉ frame) (hroom : LeavesRoom frames)
    (hbuffer : '\n'.toUInt8 ∉ buffer) (hchunks : ∀ chunk ∈ chunks, chunk.length ≤ recvBytes)
    (hstream : buffer ++ chunks.flatten = join '\n'.toUInt8 frames) :
    pollAll { rxBuffer := buffer } chunks = .ok frames := by
  induction chunks generalizing buffer frames with
  | nil =>
      rw [List.flatten_nil, List.append_nil] at hstream
      have hsplit := split_join hframes []
      rw [List.append_nil, ← hstream, split_of_notMem hbuffer] at hsplit
      simp only [split, List.append_nil, Prod.mk.injEq] at hsplit
      rw [pollAll, hsplit.1]
  | cons chunk chunks ih =>
      rw [List.flatten_cons, ← List.append_assoc] at hstream
      have hprefix : buffer ++ chunk <+: join '\n'.toUInt8 frames := ⟨_, hstream⟩
      have hfits := hroom.length_le hbuffer (hchunks chunk (by simp)) hprefix
      obtain ⟨later, hlater⟩ := split_prefix hframes hprefix
      have hrest : (split '\n'.toUInt8 (buffer ++ chunk)).2 ++ chunks.flatten =
          join '\n'.toUInt8 later := by
        have hjoin := join_split (d := '\n'.toUInt8) (buffer ++ chunk)
        rw [← hlater, join_append] at hstream
        apply List.append_cancel_left
        rw [← hstream, ← List.append_assoc, hjoin]
      rw [← hlater] at hroom hframes
      rw [pollAll_cons hbuffer hfits, ih (fun frame hf => hframes frame (by simp [hf]))
        hroom.append_right (notMem_rest _) (fun c hc => hchunks c (by simp [hc])) hrest, ← hlater]
      rfl

theorem isReceived_singles_append {s mid t : Bytes} (hne : mid ≠ [])
    (hlength : mid.length ≤ recvBytes) :
    IsReceived (s ++ (mid ++ t)) (Server.singles s ++ mid :: Server.singles t) where
  flatten := by simp
  length _ hc :=
    Server.length_of_mem_singles_append (by decide) ⟨List.length_pos_iff.mpr hne, hlength⟩ hc

/-- The stream up to the newline of a frame comes byte by byte, and then as much as `recv`
takes. -/
theorem exists_received {before after : List Bytes} {frame : Bytes}
    (hbefore : ∀ f ∈ before, '\n'.toUInt8 ∉ f) (hframe : '\n'.toUInt8 ∉ frame) :
    ∃ earlier chunk later,
      IsReceived (join '\n'.toUInt8 (before ++ frame :: after)) (earlier ++ chunk :: later) ∧
      (split '\n'.toUInt8 earlier.flatten).2 = frame ∧
      chunk.length = min recvBytes (1 + (join '\n'.toUInt8 after).length) := by
  have hstream : join '\n'.toUInt8 (before ++ frame :: after) =
      (join '\n'.toUInt8 before ++ frame) ++
        (('\n'.toUInt8 :: join '\n'.toUInt8 after).take recvBytes ++
          ('\n'.toUInt8 :: join '\n'.toUInt8 after).drop recvBytes) := by
    rw [List.take_append_drop]
    simp
  rw [hstream]
  refine ⟨_, _, _, isReceived_singles_append (by simp [recvBytes]) (by simp), ?_, ?_⟩
  · rw [Server.flatten_singles, split_join hbefore, split_of_notMem hframe]
  · rw [List.length_take, List.length_cons, Nat.add_comm]

/-- Frames within the limit are returned in order, however `recv` cuts their stream, exactly when
each of them fits the buffer together with the most that can arrive with its newline. -/
theorem daemon_stream_accepted_iff {frames : List Bytes}
    (hframes : ∀ frame ∈ frames, '\n'.toUInt8 ∉ frame ∧ frame.length ≤ kMaxEventBytes) :
    (∀ chunks, IsReceived (join '\n'.toUInt8 frames) chunks → pollAll {} chunks = .ok frames) ↔
      LeavesRoom frames := by
  have hnewline : ∀ frame ∈ frames, '\n'.toUInt8 ∉ frame := fun frame hf => (hframes frame hf).1
  constructor
  · intro h before frame after hsplit
    rw [hsplit] at hnewline
    have hbefore : ∀ f ∈ before, '\n'.toUInt8 ∉ f := fun f hf => hnewline f (by simp [hf])
    obtain ⟨earlier, chunk, later, hreceived, hbuffer, hlength⟩ :=
      @exists_received before after frame hbefore (hnewline frame (by simp))
    rw [← hsplit] at hreceived
    have hfits := length_le_of_pollAll_ok (by simp) (h _ hreceived)
    rwa [List.nil_append, hbuffer, List.length_append, hlength] at hfits
  · intro hroom chunks hreceived
    apply pollAll_of_leavesRoom hnewline hroom (by simp)
      fun chunk hc => (hreceived.length chunk hc).2
    rw [List.nil_append, hreceived.flatten]

theorem daemon_stream_accepted_short :
    (∀ frame ∈ [cstr "a", cstr "b"], '\n'.toUInt8 ∉ frame ∧ frame.length ≤ kMaxEventBytes) ∧
      ∀ chunks, IsReceived (join '\n'.toUInt8 [cstr "a", cstr "b"]) chunks →
        pollAll {} chunks = .ok [cstr "a", cstr "b"] := by
  have hframes : ∀ frame ∈ [cstr "a", cstr "b"],
      '\n'.toUInt8 ∉ frame ∧ frame.length ≤ kMaxEventBytes := by
    intro frame hf
    simp only [List.mem_cons, List.not_mem_nil, or_false] at hf
    rcases hf with rfl | rfl <;> decide
  exact ⟨hframes, (daemon_stream_accepted_iff hframes).mpr
    (leavesRoom_of_length_le (by decide))⟩

/-- A frame of 256 KiB is within the limit, and refused when its newline comes. -/
theorem longest_frame_refused :
    let frame : Bytes := List.replicate kMaxEventBytes 'x'.toUInt8
    ('\n'.toUInt8 ∉ frame ∧ frame.length ≤ kMaxEventBytes) ∧
      ∃ chunks, IsReceived (join '\n'.toUInt8 [frame]) chunks ∧
        pollAll {} chunks = .error oversized := by
  intro frame
  have hlen : frame.length = kMaxEventBytes := List.length_replicate
  have hline : '\n'.toUInt8 ∉ frame := fun h => absurd (List.eq_of_mem_replicate h) (by decide)
  obtain ⟨earlier, chunk, later, hreceived, hbuffer, hlength⟩ :=
    @exists_received [] [] frame (by simp) hline
  refine ⟨⟨hline, hlen.le⟩, _, hreceived, ?_⟩
  apply (pollAll_cases _ (by simp)).resolve_left
  intro hok
  have hfits := length_le_of_pollAll_ok (by simp) hok
  rw [List.nil_append, hbuffer, List.length_append, hlen, hlength] at hfits
  simp [recvBytes] at hfits

end Ezcap.NativeHost
