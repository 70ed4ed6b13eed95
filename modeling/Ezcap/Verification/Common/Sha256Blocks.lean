import Ezcap.Library.BigEndian
import Ezcap.Model.Sha256

/-! One block of the streaming hash is one step of the standard's hash computation. -/

namespace Ezcap.Sha256

open Sha256Standard

/-! ## Words -/

theorem rotateRight_eq (x n : UInt32) (hpos : 0 < n.toNat) (hlt : n.toNat < 32) :
    rotateRight x n = rotr n.toNat x := by
  have hback : (4294967296 - n.toNat) % 32 = 32 - n.toNat := by omega
  apply UInt32.toBitVec_inj.mp
  simp [rotateRight, rotr, BitVec.rotateRight_def, Nat.mod_eq_of_lt hlt, hback]

theorem shiftRight_eq (x n : UInt32) (hlt : n.toNat < 32) : x >>> n = shr n.toNat x := by
  apply UInt32.toBitVec_inj.mp
  simp [shr, Nat.mod_eq_of_lt hlt]

theorem smallSigma0_eq (x : UInt32) :
    rotateRight x 7 ^^^ rotateRight x 18 ^^^ (x >>> 3) = smallSigma0 x := by
  rw [rotateRight_eq x 7 (by decide) (by decide), rotateRight_eq x 18 (by decide) (by decide),
    shiftRight_eq x 3 (by decide)]
  rfl

theorem smallSigma1_eq (x : UInt32) :
    rotateRight x 17 ^^^ rotateRight x 19 ^^^ (x >>> 10) = smallSigma1 x := by
  rw [rotateRight_eq x 17 (by decide) (by decide), rotateRight_eq x 19 (by decide) (by decide),
    shiftRight_eq x 10 (by decide)]
  rfl

theorem bigSigma0_eq (x : UInt32) :
    rotateRight x 2 ^^^ rotateRight x 13 ^^^ rotateRight x 22 = bigSigma0 x := by
  rw [rotateRight_eq x 2 (by decide) (by decide), rotateRight_eq x 13 (by decide) (by decide),
    rotateRight_eq x 22 (by decide) (by decide)]
  rfl

theorem bigSigma1_eq (x : UInt32) :
    rotateRight x 6 ^^^ rotateRight x 11 ^^^ rotateRight x 25 = bigSigma1 x := by
  rw [rotateRight_eq x 6 (by decide) (by decide), rotateRight_eq x 11 (by decide) (by decide),
    rotateRight_eq x 25 (by decide) (by decide)]
  rfl

theorem blockWord_eq (block : Bytes) (i : ℕ) : blockWord block i = word block i := by
  apply UInt32.toNat_inj.mp
  rw [blockWord, word, Nat.mul_comm i 4, BigEndian.toNat_join, UInt32.toNat_ofNat',
    Nat.mod_eq_of_lt]
  exact BigEndian.join_lt _ _ _ _

/-! ## The schedule -/

theorem schedule_of_lt {m : ℕ → UInt32} {t : ℕ} (h : t < 16) : schedule m t = m t := by
  rw [schedule, if_pos h]

theorem schedule_of_ge {m : ℕ → UInt32} {t : ℕ} (h : 16 ≤ t) :
    schedule m t = smallSigma1 (schedule m (t - 2)) + schedule m (t - 7) +
      smallSigma0 (schedule m (t - 15)) + schedule m (t - 16) := by
  rw [schedule, if_neg (Nat.not_lt.mpr h)]

theorem getD_map_range {f : ℕ → UInt32} {n i : ℕ} (h : i < n) :
    ((List.range n).map f).getD i 0 = f i := by
  simp [h]

theorem scheduleWord_eq (m : ℕ → UInt32) {t : ℕ} (h : 16 ≤ t) :
    scheduleWord ((List.range t).map (schedule m)) t = schedule m t := by
  unfold scheduleWord
  simp only [getD_map_range (show t - 15 < t by omega), getD_map_range (show t - 2 < t by omega),
    getD_map_range (show t - 16 < t by omega), getD_map_range (show t - 7 < t by omega),
    smallSigma0_eq, smallSigma1_eq]
  rw [schedule_of_ge h]
  ac_rfl

theorem foldl_scheduleWord (m : ℕ → UInt32) (n : ℕ) :
    (List.range' 16 n).foldl (fun w i => w ++ [scheduleWord w i])
      ((List.range 16).map (schedule m)) = (List.range (16 + n)).map (schedule m) := by
  induction n with
  | zero => rfl
  | succ n ih =>
      rw [List.range'_concat, List.foldl_append, ih, ← Nat.add_assoc, List.range_succ,
        List.map_append, Nat.one_mul, List.foldl_cons, List.foldl_nil,
        scheduleWord_eq m (Nat.le_add_right 16 n)]
      rfl

theorem messageSchedule_eq (block : Bytes) :
    messageSchedule block = (List.range 64).map (schedule (word block)) := by
  have hfirst : (List.range 16).map (blockWord block) =
      (List.range 16).map (schedule (word block)) := by
    refine List.map_congr_left fun t ht => ?_
    rw [schedule_of_lt (List.mem_range.mp ht), blockWord_eq]
  rw [messageSchedule, hfirst, foldl_scheduleWord]

/-! ## The rounds -/

theorem round_eq (m : ℕ → UInt32) (v : Words) {t : ℕ} (h : t < 64) :
    round ((List.range 64).map (schedule m)) v t =
      Sha256Standard.round (constants.getD t 0) (schedule m t) v := by
  unfold round
  simp only [getD_map_range h, bigSigma0_eq, bigSigma1_eq]
  rfl

theorem foldl_round (m : ℕ → UInt32) (v : Words) {t : ℕ} (h : t ≤ 64) :
    (List.range t).foldl (round ((List.range 64).map (schedule m))) v = rounds m v t := by
  induction t with
  | zero => rfl
  | succ t ih =>
      have hlast : List.range (t + 1) = List.range t ++ [t] := List.range_succ
      rw [hlast, List.foldl_append, ih (by omega), List.foldl_cons, List.foldl_nil,
        round_eq m _ h, rounds]

/-- A block changes the hash value as the standard says, and nothing else. -/
theorem processBlock_eq (hash : Sha256) (block : Bytes) :
    hash.processBlock block = { hash with state := compress hash.state block } := by
  unfold processBlock
  simp only [messageSchedule_eq, foldl_round _ _ le_rfl, compress, Words.add]
  simp only [UInt32.add_comm]

end Ezcap.Sha256
