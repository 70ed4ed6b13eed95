import Ezcap.Library.Lines
import Ezcap.Model.Server

/-! Which frames a client's byte stream is taken for. The two size tests of `split_frames`
disagree on a frame of exactly the limit, so such a frame is served or refused depending on
where the stream was cut. -/

namespace Ezcap.Server

open StdString Ipc Lines

/-! ## The splitting loop -/

theorem find_newline {line : Bytes} (h : '\n'.toUInt8 ∉ line) (s : Bytes) :
    find (line ++ '\n'.toUInt8 :: s) '\n'.toUInt8 0 = some line.length := by
  have hline : line.findIdx? (· == '\n'.toUInt8) = none := by
    rw [List.findIdx?_eq_none_iff]
    intro c hc
    exact beq_false_of_ne fun hnl => h (hnl ▸ hc)
  simp only [find, findFirstOf, List.drop_zero, List.contains_cons, List.contains_nil,
    Bool.or_false]
  simp [List.findIdx?_append, List.findIdx?_cons, hline]

theorem find_newline_none {s : Bytes} (h : '\n'.toUInt8 ∉ s) : find s '\n'.toUInt8 0 = none := by
  simp only [find, findFirstOf, List.drop_zero, List.contains_cons, List.contains_nil,
    Bool.or_false, Option.map_eq_none_iff, List.findIdx?_eq_none_iff]
  intro c hc
  exact beq_false_of_ne fun hnl => h (hnl ▸ hc)

/-- The answer to a stream with too long a frame. -/
def tooLarge : IpcError := ⟨.messageTooLarge, cstr "frame exceeds size limit"⟩

theorem splitLoop_join (maxBytes : ℕ) {fuel : ℕ} {lines : List Bytes} {tail : Bytes}
    (hlines : ∀ line ∈ lines, '\n'.toUInt8 ∉ line) (htail : '\n'.toUInt8 ∉ tail)
    (hfuel : (join '\n'.toUInt8 lines ++ tail).length ≤ fuel) (frames : List Bytes) :
    splitLoop maxBytes fuel (join '\n'.toUInt8 lines ++ tail) frames =
      if ∀ line ∈ lines, line.length ≤ maxBytes then .ok (frames ++ lines, tail)
      else .error tooLarge := by
  induction lines generalizing fuel frames with
  | nil =>
      cases fuel with
      | zero => simp [splitLoop]
      | succ fuel => simp [splitLoop, find_newline_none htail]
  | cons line lines ih =>
      cases fuel with
      | zero => simp at hfuel
      | succ fuel =>
          have hline := hlines line (by simp)
          have hrest : (join '\n'.toUInt8 lines ++ tail).length ≤ fuel := by
            simp only [join_cons, List.length_append, List.length_cons] at hfuel ⊢
            omega
          rw [join_cons, List.append_assoc, List.cons_append, splitLoop, find_newline hline]
          by_cases hlong : line.length > maxBytes
          · simp [hlong, tooLarge, Nat.not_le.mpr hlong]
          · have hdrop (rest : Bytes) :
                (line ++ '\n'.toUInt8 :: rest).drop (line.length + 1) = rest := by
              simp [List.drop_append]
            simp only [hlong, if_false, List.take_left, hdrop]
            rw [ih (fun l hl => hlines l (by simp [hl])) hrest]
            simp [Nat.not_lt.mp hlong]

theorem splitFrames_eq (buffer : Bytes) (maxBytes : ℕ) :
    splitFrames buffer maxBytes =
      if (∀ line ∈ (split '\n'.toUInt8 buffer).1, line.length ≤ maxBytes) ∧
          (split '\n'.toUInt8 buffer).2.length < maxBytes then
        .ok (split '\n'.toUInt8 buffer)
      else .error tooLarge := by
  have hjoin := join_split (d := '\n'.toUInt8) buffer
  have hloop := splitLoop_join maxBytes
    (fun line hl => notMem_of_mem_split (s := buffer) hl) (notMem_rest buffer)
    (le_of_eq (congrArg List.length hjoin)) []
  rw [hjoin] at hloop
  rw [splitFrames, hloop]
  by_cases hlines : ∀ line ∈ (split '\n'.toUInt8 buffer).1, line.length ≤ maxBytes
  · rw [if_pos hlines]
    by_cases htail : (split '\n'.toUInt8 buffer).2.length < maxBytes
    · rw [if_pos ⟨hlines, htail⟩]
      simp [Except.bind, Nat.not_le.mpr htail]
    · rw [if_neg fun h => htail h.2]
      simp [Except.bind, Nat.not_lt.mp htail, tooLarge]
  · rw [if_neg hlines, if_neg fun h => hlines h.1]
    rfl

/-! ## What a stream stands for -/

/-- The frames of a stream up to the first that is too long, and the unfinished one after them,
or `none` when the client is to be disconnected. -/
def framing (stream : Bytes) : List Bytes × Option Bytes :=
  let lines := (split '\n'.toUInt8 stream).1
  let tail := (split '\n'.toUInt8 stream).2
  (lines.takeWhile fun line => decide (line.length ≤ kMaxRequestBytes),
    if (∀ line ∈ lines, line.length ≤ kMaxRequestBytes) ∧ tail.length < kMaxRequestBytes then
      some tail
    else none)

theorem framing_eq {stream : Bytes} {lines : List Bytes} {tail : Bytes}
    (h : split '\n'.toUInt8 stream = (lines, tail)) :
    framing stream =
      (lines.takeWhile fun line => decide (line.length ≤ kMaxRequestBytes),
        if (∀ line ∈ lines, line.length ≤ kMaxRequestBytes) ∧
            tail.length < kMaxRequestBytes then some tail
        else none) := by
  rw [framing, h]

theorem framing_append {s : Bytes} (t : Bytes)
    (h : ∀ line ∈ (split '\n'.toUInt8 s).1, line.length ≤ kMaxRequestBytes) :
    framing (s ++ t) =
      ((split '\n'.toUInt8 s).1 ++ (framing ((split '\n'.toUInt8 s).2 ++ t)).1,
        (framing ((split '\n'.toUInt8 s).2 ++ t)).2) := by
  have hall : ∀ line ∈ (split '\n'.toUInt8 s).1,
      decide (line.length ≤ kMaxRequestBytes) = true := by
    simpa using h
  have hlines (lines : List Bytes) :
      (∀ line ∈ (split '\n'.toUInt8 s).1 ++ lines, line.length ≤ kMaxRequestBytes) ↔
        ∀ line ∈ lines, line.length ≤ kMaxRequestBytes := by
    rw [List.forall_mem_append, and_iff_right h]
  rw [framing_eq (split_append s t), framing, List.takeWhile_append_of_pos hall]
  simp only [hlines]

theorem framing_long {line : Bytes} (hline : '\n'.toUInt8 ∉ line)
    (h : kMaxRequestBytes < line.length) (s : Bytes) :
    framing (line ++ '\n'.toUInt8 :: s) = ([], none) := by
  rw [framing_eq (split_record hline s)]
  simp [Nat.not_le.mpr h]

/-- No frame that the stream gets to has exactly the limit's length. -/
def NoExact (stream : Bytes) : Prop :=
  ∀ line ∈ (framing stream).1, line.length ≠ kMaxRequestBytes

/-- Bytes up to the limit without a newline have to be refused, since no frame of exactly that
length follows. -/
theorem framing_unfinished {s t : Bytes} (hs : '\n'.toUInt8 ∉ s)
    (hlen : kMaxRequestBytes ≤ s.length) (hexact : NoExact (s ++ t)) :
    framing (s ++ t) = ([], none) := by
  by_cases ht : '\n'.toUInt8 ∈ t
  · obtain ⟨p, q, rfl, hp⟩ := List.eq_append_cons_of_mem ht
    have hline : '\n'.toUInt8 ∉ s ++ p := by simp [hs, hp]
    rw [← List.append_assoc] at hexact ⊢
    have hle : kMaxRequestBytes ≤ (s ++ p).length := by
      rw [List.length_append]
      omega
    refine framing_long hline (lt_of_le_of_ne hle fun heq => hexact (s ++ p) ?_ heq.symm) q
    rw [framing_eq (split_record hline q)]
    simp [← heq]
  · have hst : '\n'.toUInt8 ∉ s ++ t := by simp [hs, ht]
    rw [framing_eq (split_of_notMem hst)]
    have hle : ¬ (s ++ t).length < kMaxRequestBytes := by
      rw [List.length_append]
      omega
    rw [if_neg fun h => hle h.2]
    rfl

/-! ## Every cut is read as the stream -/

/-- One way of receiving the stream. -/
structure IsCut (stream : Bytes) (chunks : List Bytes) : Prop where
  flatten : chunks.flatten = stream
  length : ∀ chunk ∈ chunks, 1 ≤ chunk.length ∧ chunk.length ≤ 4096

/-- A chunk that completes a frame leaves every later frame in it, and the rest, short. -/
theorem splitFrames_chunk {buffer p q : Bytes} (hline : '\n'.toUInt8 ∉ buffer ++ p)
    (hq : q.length < 4096) (h : (buffer ++ p).length ≤ kMaxRequestBytes) :
    splitFrames (buffer ++ p ++ '\n'.toUInt8 :: q) kMaxRequestBytes =
      .ok (split '\n'.toUInt8 (buffer ++ p ++ '\n'.toUInt8 :: q)) := by
  have hsmall : 4096 < kMaxRequestBytes := by decide
  rw [splitFrames_eq, split_record hline, if_pos]
  refine ⟨?_, (length_rest_le q).trans_lt (by omega)⟩
  intro line hl
  rcases List.mem_cons.mp hl with rfl | hl
  · exact h
  · have := length_lt_of_mem_split hl
    omega

theorem receive_eq {buffer : Bytes} {chunks : List Bytes} (hbuffer : '\n'.toUInt8 ∉ buffer)
    (hlen : buffer.length < kMaxRequestBytes) (hchunks : ∀ chunk ∈ chunks, chunk.length ≤ 4096)
    (hexact : NoExact (buffer ++ chunks.flatten)) :
    receive buffer chunks = framing (buffer ++ chunks.flatten) := by
  induction chunks generalizing buffer with
  | nil =>
      rw [List.flatten_nil, List.append_nil, framing_eq (split_of_notMem hbuffer)]
      simp [receive, hlen]
  | cons chunk chunks ih =>
      have hchunk := hchunks chunk (by simp)
      rw [List.flatten_cons, ← List.append_assoc] at hexact ⊢
      -- what is left once `split_frames` has accepted the chunk
      have hnext (hok : splitFrames (buffer ++ chunk) kMaxRequestBytes =
          .ok (split '\n'.toUInt8 (buffer ++ chunk))) :
          receive buffer (chunk :: chunks) = framing (buffer ++ chunk ++ chunks.flatten) := by
        have hfits := hok
        rw [splitFrames_eq] at hfits
        split at hfits
        · rename_i hsizes
          rw [NoExact, framing_append _ hsizes.1] at hexact
          rw [framing_append _ hsizes.1, receive, hok]
          simp only
          rw [ih (notMem_rest _) hsizes.2 (fun c hc => hchunks c (by simp [hc]))
            fun line hl => hexact line (by simp [hl])]
        · cases hfits
      by_cases hmem : '\n'.toUInt8 ∈ chunk
      · obtain ⟨p, q, rfl, hp⟩ := List.eq_append_cons_of_mem hmem
        have hline : '\n'.toUInt8 ∉ buffer ++ p := by simp [hbuffer, hp]
        rw [← List.append_assoc] at hexact hnext ⊢
        by_cases hfirst : (buffer ++ p).length ≤ kMaxRequestBytes
        · refine hnext (splitFrames_chunk hline ?_ hfirst)
          rw [List.length_append, List.length_cons] at hchunk
          omega
        · rw [List.append_assoc _ _ chunks.flatten, List.cons_append,
            framing_long hline (Nat.not_le.mp hfirst), receive, ← List.append_assoc,
            splitFrames_eq, split_record hline, if_neg fun h => hfirst (h.1 _ (by simp))]
      · have hline : '\n'.toUInt8 ∉ buffer ++ chunk := by simp [hbuffer, hmem]
        by_cases hfits : (buffer ++ chunk).length < kMaxRequestBytes
        · refine hnext ?_
          rw [splitFrames_eq, split_of_notMem hline, if_pos ⟨by simp, hfits⟩]
        · rw [framing_unfinished hline (Nat.not_lt.mp hfits) hexact, receive, splitFrames_eq,
            split_of_notMem hline, if_neg fun h => hfits h.2]

/-! ## A frame of exactly the limit -/

theorem receive_append {buffer rest : Bytes} {chunks frames : List Bytes}
    (h : receive buffer chunks = (frames, some rest)) (later : List Bytes) :
    receive buffer (chunks ++ later) =
      (frames ++ (receive rest later).1, (receive rest later).2) := by
  induction chunks generalizing buffer frames with
  | nil =>
      cases h
      rfl
  | cons chunk chunks ih =>
      rw [receive] at h
      rw [List.cons_append, receive]
      split at h
      · cases h
      · rename_i found left hsplit
        obtain ⟨rfl, hrest⟩ := Prod.mk.inj h
        simp only
        rw [ih (Prod.ext rfl hrest), List.append_assoc]

/-- The stream received byte by byte. -/
def singles (s : Bytes) : List Bytes := s.map fun c => [c]

@[simp] theorem flatten_singles (s : Bytes) : (singles s).flatten = s := by
  induction s with
  | nil => rfl
  | cons c s ih => simpa [singles] using ih

theorem length_of_mem_singles_append {s mid t chunk : Bytes} {n : ℕ} (hn : 1 ≤ n)
    (hmid : 1 ≤ mid.length ∧ mid.length ≤ n) (hc : chunk ∈ singles s ++ mid :: singles t) :
    1 ≤ chunk.length ∧ chunk.length ≤ n := by
  simp only [singles, List.mem_append, List.mem_map, List.mem_cons] at hc
  rcases hc with ⟨c, -, rfl⟩ | rfl | ⟨c, -, rfl⟩
  · exact ⟨le_rfl, hn⟩
  · exact hmid
  · exact ⟨le_rfl, hn⟩

theorem isCut_singles_append {s mid t : Bytes} (hmid : 1 ≤ mid.length ∧ mid.length ≤ 4096) :
    IsCut (s ++ mid ++ t) (singles s ++ mid :: singles t) where
  flatten := by simp
  length _ hc := length_of_mem_singles_append (by decide) hmid hc

/-- Frames below the limit, and an unfinished one, are received as they are. -/
theorem receive_singles {lines : List Bytes} {tail : Bytes}
    (hlines : ∀ line ∈ lines, '\n'.toUInt8 ∉ line ∧ line.length < kMaxRequestBytes)
    (htail : '\n'.toUInt8 ∉ tail) (hlen : tail.length < kMaxRequestBytes) :
    receive [] (singles (join '\n'.toUInt8 lines ++ tail)) = (lines, some tail) := by
  have hsplit : split '\n'.toUInt8 (join '\n'.toUInt8 lines ++ tail) = (lines, tail) := by
    rw [split_join fun line hl => (hlines line hl).1, split_of_notMem htail, List.append_nil]
  have hshort : ∀ line ∈ lines, line.length ≤ kMaxRequestBytes :=
    fun line hl => (hlines line hl).2.le
  have hframing :
      framing (join '\n'.toUInt8 lines ++ tail) = (lines, some tail) := by
    rw [framing_eq hsplit, if_pos ⟨hshort, hlen⟩, List.takeWhile_eq_self_iff.mpr]
    simpa using hshort
  have hreceive := @receive_eq [] (singles (join '\n'.toUInt8 lines ++ tail)) (by simp) (by decide)
    (fun chunk hc => by
      obtain ⟨c, -, rfl⟩ := List.mem_map.mp hc
      simp) (by
      rw [List.nil_append, flatten_singles, NoExact, hframing]
      exact fun line hl => (hlines line hl).2.ne)
  rwa [List.nil_append, flatten_singles, hframing] at hreceive

/-- The frames passed to `handle_frame`, and whether the client was then disconnected. -/
def served (chunks : List Bytes) : List Bytes × Bool :=
  ((receive [] chunks).1, (receive [] chunks).2.isNone)

/-- Cut before its newline, a frame of exactly the limit is refused; otherwise it is served. -/
theorem exists_cuts_differ {lines : List Bytes} {line rest : Bytes}
    (hlines : ∀ l ∈ lines, '\n'.toUInt8 ∉ l ∧ l.length < kMaxRequestBytes)
    (hline : '\n'.toUInt8 ∉ line) (hlen : line.length = kMaxRequestBytes) :
    ∃ cut cut', IsCut (join '\n'.toUInt8 lines ++ line ++ '\n'.toUInt8 :: rest) cut ∧
      IsCut (join '\n'.toUInt8 lines ++ line ++ '\n'.toUInt8 :: rest) cut' ∧
      served cut = (lines, true) ∧ lines ++ [line] <+: (served cut').1 := by
  have hne : line ≠ [] := by
    rintro rfl
    cases hlen
  obtain ⟨init, last, rfl⟩ := (List.eq_nil_or_concat' line).resolve_left hne
  simp only [List.mem_append, List.mem_singleton, not_or] at hline
  have hinit := receive_singles hlines hline.1 (by simp [← hlen])
  have hwhole : '\n'.toUInt8 ∉ init ++ [last] := by simpa using hline
  refine ⟨singles (join '\n'.toUInt8 lines ++ init) ++ [last] :: singles ('\n'.toUInt8 :: rest),
    singles (join '\n'.toUInt8 lines ++ init) ++ [last, '\n'.toUInt8] :: singles rest,
    ?_, ?_, ?_, ?_⟩
  · simpa using @isCut_singles_append (join '\n'.toUInt8 lines ++ init) [last]
      ('\n'.toUInt8 :: rest) (by simp)
  · simpa using @isCut_singles_append (join '\n'.toUInt8 lines ++ init)
      [last, '\n'.toUInt8] rest (by simp)
  · have hrefused : splitFrames (init ++ [last]) kMaxRequestBytes = .error tooLarge := by
      rw [splitFrames_eq, split_of_notMem hwhole, if_neg fun h => absurd h.2 (by simp [hlen])]
    rw [served, receive_append hinit, receive, hrefused]
    simp
  · have haccepted : splitFrames (init ++ [last, '\n'.toUInt8]) kMaxRequestBytes =
        .ok ([init ++ [last]], []) := by
      have hsplit := split_record hwhole []
      rw [List.append_assoc, List.singleton_append] at hsplit
      rw [splitFrames_eq, hsplit, if_pos]
      · rfl
      · exact ⟨by simpa [split] using hlen.le, by simp [split, kMaxRequestBytes]⟩
    rw [served, receive_append hinit, receive, haccepted]
    simp

theorem receive_isCut {stream : Bytes} {chunks : List Bytes} (hcut : IsCut stream chunks)
    (hexact : NoExact stream) : receive [] chunks = framing stream := by
  have hreceive := @receive_eq [] chunks (by simp) (by decide)
    (fun chunk hmem => (hcut.length chunk hmem).2) (by
      rw [List.nil_append, hcut.flatten]
      exact hexact)
  rwa [List.nil_append, hcut.flatten] at hreceive

/-- A stream of one frame within the limit is served as that frame, however it is cut, unless
the frame has exactly the length of the limit. -/
theorem served_line_iff {line : Bytes} (hline : '\n'.toUInt8 ∉ line)
    (hlen : line.length ≤ kMaxRequestBytes) :
    (∀ cut, IsCut (line ++ ['\n'.toUInt8]) cut → served cut = ([line], false)) ↔
      line.length ≠ kMaxRequestBytes := by
  constructor
  · intro h hexact
    obtain ⟨cut, -, hcut, -, hserved, -⟩ := @exists_cuts_differ [] line [] (by simp) hline hexact
    cases hserved.symm.trans (h cut hcut)
  · intro hne cut hcut
    have hframing : framing (line ++ ['\n'.toUInt8]) = ([line], some []) := by
      have hpositive : 0 < kMaxRequestBytes := by decide
      rw [framing_eq (split_record hline [])]
      simp [hlen, hpositive, split]
    have hexact : NoExact (line ++ ['\n'.toUInt8]) := by
      simpa [NoExact, hframing] using hne
    rw [served, receive_isCut hcut hexact, hframing]
    rfl

theorem exists_first_exact {lines : List Bytes} {line : Bytes}
    (hmem : line ∈ lines.takeWhile fun l => decide (l.length ≤ kMaxRequestBytes))
    (hlen : line.length = kMaxRequestBytes) :
    ∃ before first after, lines = before ++ first :: after ∧
      (∀ l ∈ before, l.length < kMaxRequestBytes) ∧ first.length = kMaxRequestBytes := by
  induction lines with
  | nil => simp at hmem
  | cons l lines ih =>
      by_cases hl : l.length = kMaxRequestBytes
      · exact ⟨[], l, lines, rfl, by simp, hl⟩
      · by_cases hle : l.length ≤ kMaxRequestBytes
        · rw [List.takeWhile_cons_of_pos (by simpa using hle)] at hmem
          rcases List.mem_cons.mp hmem with rfl | hmem
          · exact absurd hlen hl
          · obtain ⟨before, first, after, rfl, hbefore, hfirst⟩ := ih hmem
            refine ⟨l :: before, first, after, rfl, ?_, hfirst⟩
            intro l' hl'
            rcases List.mem_cons.mp hl' with rfl | hl'
            · exact lt_of_le_of_ne hle hl
            · exact hbefore l' hl'
        · rw [List.takeWhile_cons_of_neg (by simpa using hle)] at hmem
          cases hmem

/-- Every way of cutting the stream is served alike exactly when none of the frames it gets to
has exactly the length of the limit. -/
theorem served_cut_independent_iff (stream : Bytes) :
    (∀ cut cut', IsCut stream cut → IsCut stream cut' → served cut = served cut') ↔
      ∀ line ∈ (split '\n'.toUInt8 stream).1.takeWhile
        (fun line => decide (line.length ≤ kMaxRequestBytes)),
        line.length ≠ kMaxRequestBytes := by
  constructor
  · intro h line hmem hlen
    obtain ⟨before, first, after, hlines, hbefore, hfirst⟩ := exists_first_exact hmem hlen
    have hnewline : ∀ l ∈ before ++ first :: after, '\n'.toUInt8 ∉ l :=
      fun l hl => notMem_of_mem_split (s := stream) (hlines ▸ hl)
    have hstream : join '\n'.toUInt8 before ++ first ++ '\n'.toUInt8 ::
        (join '\n'.toUInt8 after ++ (split '\n'.toUInt8 stream).2) = stream := by
      have hjoin := join_split (d := '\n'.toUInt8) stream
      rw [hlines] at hjoin
      simpa using hjoin
    obtain ⟨cut, cut', hcut, hcut', hserved, hmore⟩ := @exists_cuts_differ before first
      (join '\n'.toUInt8 after ++ (split '\n'.toUInt8 stream).2)
      (fun l hl => ⟨hnewline l (by simp [hl]), hbefore l hl⟩) (hnewline first (by simp)) hfirst
    rw [hstream] at hcut hcut'
    have hsame := h cut cut' hcut hcut'
    rw [← hsame, hserved] at hmore
    simpa using hmore.length_le
  · intro hexact cut cut' hcut hcut'
    rw [served, served, receive_isCut hcut hexact, receive_isCut hcut' hexact]

/-- A frame of 64 KiB is refused or served, depending on whether its newline comes with it. -/
theorem exact_frame_depends_on_cut :
    let line : Bytes := List.replicate kMaxRequestBytes 'x'.toUInt8
    ∃ cut cut', IsCut (line ++ ['\n'.toUInt8]) cut ∧ IsCut (line ++ ['\n'.toUInt8]) cut' ∧
      served cut = ([], true) ∧ [line] <+: (served cut').1 := by
  intro line
  have hlen : line.length = kMaxRequestBytes := List.length_replicate
  have hline : '\n'.toUInt8 ∉ line := fun h => absurd (List.eq_of_mem_replicate h) (by decide)
  exact @exists_cuts_differ [] line [] (by simp) hline hlen

end Ezcap.Server
