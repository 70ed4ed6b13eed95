import Ezcap.Model.Probes

/-! `copy_qname` of `dns.bpf.c` with the variables of its loops and each byte that it writes. -/

namespace Ezcap.Ebpf

open StdString Loop

/-- The memory behind `out`, and the indices that were written, in the order of the writes. -/
structure Output where
  memory : ℕ → UInt8
  writes : List ℕ := []

/-- `out[o] = byte`. -/
def Output.put (out : Output) (o : UInt32) (byte : UInt8) : Output where
  memory := fun k => if k = o.toNat then byte else out.memory k
  writes := out.writes ++ [o.toNat]

/-- `EZCAP_DNS_NAME_MAX - 1`, as the 32-bit positions are compared with it. -/
def nameLimit : UInt32 := UInt32.ofNat (EZCAP_DNS_NAME_MAX - 1)

/-- The variables of the loop over one label. -/
structure LabelVars where
  j : UInt32 := 0
  o : UInt32
  out : Output

/-- A turn of that loop. The function returns -1 from it with what was written. -/
def labelTurn (payload : ℕ → UInt8) (payloadLen i : UInt32) (labelLen : UInt8) (s : LabelVars) :
    Option (Turn LabelVars Output) :=
  if s.j < labelLen.toUInt32 then
    if s.o ≥ nameLimit then some (.ret s.out)
    else if i + s.j ≥ payloadLen then some (.ret s.out)
    else some (.next
      { j := s.j + 1, o := s.o + 1, out := s.out.put s.o (payload (i + s.j).toNat) })
  else some (.leave s)

/-- The variables of the loop over the labels. -/
structure QnameVars where
  i : UInt32 := 0
  o : UInt32 := 0
  hops : UInt32 := 0
  out : Output

/-- The bytes of the label at `i`, and the end of the turn. -/
def copyLabelInto (fuel : ℕ) (payload : ℕ → UInt8) (payloadLen : UInt32) (labelLen : UInt8)
    (s : QnameVars) : Option (Turn QnameVars Output) :=
  (run (labelTurn payload payloadLen s.i labelLen) fuel { o := s.o, out := s.out }).map fun
    | .inl t =>
        .next { i := s.i + labelLen.toUInt32, o := t.o, hops := s.hops + 1, out := t.out }
    | .inr out => .ret out

def qnameTurn (fuel : ℕ) (payload : ℕ → UInt8) (payloadLen : UInt32) (s : QnameVars) :
    Option (Turn QnameVars Output) :=
  if s.i < payloadLen ∧ s.hops < 128 then
    let labelLen := payload s.i.toNat
    if labelLen = 0 then some (.leave s)
    else if labelLen &&& 0xC0 ≠ 0 ∨ labelLen > 63 then some (.ret s.out)
    else
      let s := { s with i := s.i + 1 }
      if s.i + labelLen.toUInt32 > payloadLen then some (.ret s.out)
      else if s.o > 0 then
        if s.o ≥ nameLimit then some (.ret s.out)
        else copyLabelInto fuel payload payloadLen labelLen
          { s with o := s.o + 1, out := s.out.put s.o '.'.toUInt8 }
      else copyLabelInto fuel payload payloadLen labelLen s
  else some (.leave s)

/-- `copy_qname`: the number that it returns, and the output. -/
def copyQnameInto (fuel : ℕ) (payload : ℕ → UInt8) (payloadLen : UInt32) (memory : ℕ → UInt8) :
    Option (ℤ × Output) :=
  (run (qnameTurn fuel payload payloadLen) fuel { out := { memory } }).map fun
    | .inl s => (Int.bmod s.o.toNat (2 ^ 32), s.out.put s.o 0)
    | .inr out => (-1, out)

/-- The `query_len` that the program stores for what `copy_qname` returns; it was zero before. -/
def storedQueryLen (queryNameLen : ℤ) : UInt16 :=
  if queryNameLen ≥ 0 then UInt16.ofInt (queryNameLen + 1) else 0

end Ezcap.Ebpf
