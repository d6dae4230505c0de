import LiteExchange.Fix.BufferParser

/-!
# Parsing one message from two buffers

Source: `FixParser::parseFromMultipleBuffers`, which `FixSession::receive` calls when a
message does not fit on the stack. One loop walks both buffers: at the last byte of the
first one it takes the second one and resets its index.
-/

namespace LiteExchange.Fix

open Foundation.Ascii FixConstants FixMessage FieldState

/-- The loop at index `i` of `buffer`, whose length is `iterations`. -/
def walkBuffers (buffer2 buffer : Bytes) (i : Nat) (switchedToSecondBuffer : Bool)
    (s : FieldState) : Except ConversionError FieldState :=
  if h : i < buffer.length then
    (s.step buffer[i]).bind fun s =>
      if i = buffer.length - 1 then
        if switchedToSecondBuffer then .ok s
        -- The index is set to -1, and the increment of the loop makes it 0.
        else walkBuffers buffer2 buffer2 0 true s
      else walkBuffers buffer2 buffer (i + 1) switchedToSecondBuffer s
  else .ok s
termination_by ((!switchedToSecondBuffer).toNat, buffer.length - i)
decreasing_by
  · apply Prod.Lex.left
    simp_all
  · apply Prod.Lex.right
    omega

def parseFromMultipleBuffers (message : FixMessage) (buffer1 buffer2 : Bytes) :
    Except ConversionError FixMessage := do
  let s ← walkBuffers buffer2 buffer1 0 false (between message)
  s.message.initialiseHeader

/-- The loop reads what is left of its buffer and then the buffer behind it. An empty second
buffer ends it at once; an empty first one would too, and the second one is not read then. -/
theorem walkBuffers_eq {buffer2 buffer : Bytes} {i : Nat} {switched : Bool} {s : FieldState}
    (reached : i < buffer.length ∨ switched = true) :
    walkBuffers buffer2 buffer i switched s =
      (buffer.drop i ++ if switched then [] else buffer2).foldlM FieldState.step s := by
  fun_induction walkBuffers buffer2 buffer i switched s with
  | case1 buffer i switched s h ihsecond ihnext =>
    rw [List.drop_eq_getElem_cons h, List.cons_append, List.foldlM_cons]
    cases s.step buffer[i] with
    | error e => rfl
    | ok t =>
      simp only [Except.bind, bind]
      by_cases hlast : i = buffer.length - 1
      · have hend : buffer.drop (i + 1) = [] := List.drop_of_length_le (by omega)
        rw [if_pos hlast, hend, List.nil_append]
        cases switched with
        | true => rfl
        | false => simpa using ihsecond t (by simp) (Or.inr rfl)
      · rw [if_neg hlast, ihnext t (Or.inl (by omega))]
  | case2 buffer i switched s h =>
    have hend : buffer.drop i = [] := List.drop_of_length_le (by omega)
    cases reached with
    | inl inside => exact absurd inside h
    | inr hswitched =>
      rw [hend, hswitched]
      rfl

/-- Wherever a buffer is cut, the two parts are parsed like the whole. -/
theorem parseFromMultipleBuffers_eq (message : FixMessage) {buffer1 : Bytes} (buffer2 : Bytes)
    (nonempty : buffer1 ≠ []) :
    parseFromMultipleBuffers message buffer1 buffer2 =
      parseFromBuffer message (buffer1 ++ buffer2) := by
  have hinside : 0 < buffer1.length := List.length_pos_of_ne_nil nonempty
  rw [parseFromMultipleBuffers, walkBuffers_eq (Or.inl hinside), List.drop_zero, parseFromBuffer]
  rfl

/-- `58=A=B`, cut inside its value. -/
theorem parseFromMultipleBuffers_cutValue :
    (parseFromMultipleBuffers (construct .none) [53, 56, 61, 65, 61] [66, 1]).map
      (fun message => message.getTagValue fixTagFreeText) = .ok [65, 66] := by
  rw [parseFromMultipleBuffers_eq _ _ (by decide)]
  rfl

/-- Without a first buffer the second one is not read. -/
theorem parseFromMultipleBuffers_nil (message : FixMessage) (buffer2 : Bytes) :
    parseFromMultipleBuffers message [] buffer2 = message.initialiseHeader := by
  have hloop : walkBuffers buffer2 [] 0 false (between message) = .ok (between message) := by
    unfold walkBuffers
    rfl
  rw [parseFromMultipleBuffers, hloop]
  rfl

end LiteExchange.Fix
