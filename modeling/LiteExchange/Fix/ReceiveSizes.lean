import LiteExchange.Fix.Receive

/-!
# What the second call of `receive` asks for

Source: `FixSession::receive`. The remaining size is a difference in `size_t`, and the guard
of the stack buffer adds to it. What a peer sends first decides both: `Reads` says what the
first bytes declare and how many of them belong to the body, without the loop's indexes.
-/

namespace LiteExchange.Fix

open Foundation.Ascii FixConstants FixMessage

/-- `35` stands in front; the second character may be the byte behind the received ones. -/
def StartsBody (past : UInt8) (bytes : Bytes) : Prop := ∃ rest, bytes ++ [past] = 51 :: 53 :: rest

/-- `9=`, a text and a delimiter stand in front, with what is behind them. -/
def StartsLength (bytes text rest : Bytes) : Prop :=
  fixDelimiter ∉ text ∧ bytes = 57 :: fixEquals :: (text ++ fixDelimiter :: rest)

/-- Reading the bytes with a body length declared so far: the body length declared in the end,
and how many bytes there are from `35` on, if it is found. -/
inductive Reads (past : UInt8) : Int → Bytes → Int → Option Nat → Prop where
  | ended (declared : Int) : Reads past declared [] declared none
  | body (declared : Int) {bytes : Bytes} : bytes ≠ [] → StartsBody past bytes →
      Reads past declared bytes declared (some bytes.length)
  | bodyLength (declared : Int) {bytes text rest : Bytes} {length final : Int}
      {behind : Option Nat} : StartsLength bytes text rest → stoi text = .ok length →
      Reads past length rest final behind → Reads past declared bytes final behind
  | other {declared : Int} {b : UInt8} {rest : Bytes} {final : Int} {behind : Option Nat} :
      ¬ StartsBody past (b :: rest) → (∀ text behind, ¬ StartsLength (b :: rest) text behind) →
      Reads past declared rest final behind → Reads past declared (b :: rest) final behind

/-- The received bytes declare a body length, zero without a complete field, and this many of
them belong to the body, all without a `35`. -/
def Shows (received : Bytes) (past : UInt8) (declared : Int) (behind : Nat) : Prop :=
  ∃ found, Reads past 0 received declared found ∧ behind = found.getD received.length

/-- A `size_t` as the number that it was converted from. -/
def signed (size : Nat) : Int := (size : Int).bmod (2 ^ 64)

/-- The size that the second call asks for is the difference itself, and it fits behind the
received bytes when the stack buffer is taken. -/
def SizeExact (received : Bytes) (fixBodyLength receivedBodyStartIndex : Nat) : Prop :=
  (remainingBytes fixBodyLength received.length receivedBodyStartIndex : Int) =
      signed fixBodyLength - (received.length - receivedBodyStartIndex) + trailerSize ∧
    ((remainingBytes fixBodyLength received.length receivedBodyStartIndex + initialBufferSize) %
        2 ^ 64 ≤ stackBufferSize →
      received.length + remainingBytes fixBodyLength received.length receivedBodyStartIndex ≤
        stackBufferSize)

instance (received : Bytes) (fixBodyLength receivedBodyStartIndex : Nat) :
    Decidable (SizeExact received fixBodyLength receivedBodyStartIndex) :=
  inferInstanceAs (Decidable (_ ∧ _))

/-- Whatever the scan finds in the received bytes, if no text throws. -/
def SizesExact (received : Bytes) (past : UInt8) : Prop :=
  ∀ fixBodyLength receivedBodyStartIndex,
    scanHeader received past 0 0 = .ok (fixBodyLength, receivedBodyStartIndex) →
      SizeExact received fixBodyLength receivedBodyStartIndex

/-! ## The scan reads the bytes -/

section Scan

variable {front rest received text : Bytes} {past : UInt8} {fixBodyLength : Nat}

theorem stackByte_behind (k : Nat) :
    stackByte (front ++ rest) past (front.length + k) = (rest ++ [past]).getD k 0 := by
  rw [stackByte, List.append_assoc, List.getD_append_right _ _ _ _ (by omega),
    Nat.add_sub_cancel_left]

theorem startsBody_iff (nonempty : rest ≠ []) : StartsBody past rest ↔
    stackByte (front ++ rest) past front.length = 51 ∧
      stackByte (front ++ rest) past (front.length + 1) = 53 := by
  have hfirst : stackByte (front ++ rest) past front.length = (rest ++ [past]).getD 0 0 :=
    stackByte_behind 0
  rw [hfirst, stackByte_behind 1, StartsBody]
  rcases rest with - | ⟨b, - | ⟨c, rest⟩⟩
  · exact absurd rfl nonempty
  · simp
  · simp

theorem readBodyLength_some {bytes read : Bytes}
    (found : readBodyLength read bytes = some text) :
    ∃ digits rest, text = read ++ digits ∧ fixDelimiter ∉ digits ∧
      bytes = digits ++ fixDelimiter :: rest := by
  induction bytes generalizing read with
  | nil => cases found
  | cons b bytes ih =>
    rw [readBodyLength] at found
    by_cases hb : b = fixDelimiter
    · rw [if_pos hb, Option.some.injEq] at found
      exact ⟨[], bytes, by rw [List.append_nil, found], List.not_mem_nil, by rw [hb]; rfl⟩
    · rw [if_neg hb] at found
      obtain ⟨digits, rest, htext, hplain, hbytes⟩ := ih found
      refine ⟨b :: digits, rest, by rw [htext, List.append_assoc]; rfl, ?_, by rw [hbytes]; rfl⟩
      rw [List.mem_cons, not_or]
      exact ⟨Ne.symm hb, hplain⟩

/-- A body length is found where a complete field stands. -/
theorem bodyLengthAt_some (found : bodyLengthAt (front ++ rest) past front.length = some text) :
    ∃ behind, StartsLength rest text behind := by
  have hfirst : stackByte (front ++ rest) past front.length = (rest ++ [past]).getD 0 0 :=
    stackByte_behind 0
  have hdrop : (front ++ rest).drop (front.length + 2) = rest.drop 2 := by
    rw [List.drop_append, List.drop_of_length_le (by omega), List.nil_append]
    congr 1
    omega
  rw [bodyLengthAt, hfirst, stackByte_behind 1, hdrop] at found
  rcases ite_eq_iff.mp found with ⟨⟨hnine, hequals⟩, hread⟩ | ⟨-, hnone⟩
  · obtain ⟨digits, behind, htext, hplain, hrest⟩ := readBodyLength_some hread
    rw [List.nil_append] at htext
    subst htext
    refine ⟨behind, hplain, ?_⟩
    rcases rest with - | ⟨b, - | ⟨c, rest⟩⟩
    · simp at hrest
    · simp at hrest
    · simp only [List.cons_append, List.getD_cons_zero, List.getD_cons_succ] at hnine hequals
      rw [List.drop_succ_cons, List.drop_succ_cons, List.drop_zero] at hrest
      rw [hnine, hequals, hrest]
  · cases hnone

theorem bodyLengthAt_of_startsLength {behind : Bytes} (starts : StartsLength rest text behind) :
    bodyLengthAt (front ++ rest) past front.length = some text := by
  obtain ⟨hplain, rfl⟩ := starts
  have hfirst : stackByte (front ++ 57 :: fixEquals :: (text ++ fixDelimiter :: behind)) past
      front.length = 57 := stackByte_behind 0
  have hread := readBodyLength_eq [] behind (text ++ fixDelimiter :: behind).length hplain
  rw [List.take_length, if_pos (by simp), List.nil_append] at hread
  rw [bodyLengthAt, hfirst, stackByte_behind 1, if_pos ⟨rfl, rfl⟩, List.drop_append,
    List.drop_of_length_le (by omega), Nat.add_sub_cancel_left, List.nil_append]
  exact hread

theorem bodyLengthAt_none (noLength : ∀ text behind, ¬ StartsLength rest text behind) :
    bodyLengthAt (front ++ rest) past front.length = none := by
  cases hfound : bodyLengthAt (front ++ rest) past front.length with
  | none => rfl
  | some text =>
    obtain ⟨behind, starts⟩ := bodyLengthAt_some hfound
    exact absurd starts (noLength text behind)

/-- Any other byte is passed over. -/
theorem scanHeader_other {b : UInt8} (noBody : ¬ StartsBody past (b :: rest))
    (noLength : ∀ text behind, ¬ StartsLength (b :: rest) text behind) :
    scanHeader (front ++ b :: rest) past front.length fixBodyLength =
      scanHeader ((front ++ [b]) ++ rest) past (front ++ [b]).length fixBodyLength := by
  rw [scanHeader_step (by simp) (bodyLengthAt_none noLength)
    (fun h => noBody ((startsBody_iff (List.cons_ne_nil b rest)).mpr h)), List.append_assoc,
    List.singleton_append, List.length_append, List.length_singleton]

/-- At a complete field the scan goes on behind it, with its number. -/
theorem scanHeader_length {behind : Bytes} (starts : StartsLength rest text behind) :
    scanHeader (front ++ rest) past front.length fixBodyLength =
      ((stoi text).map toSize).bind (scanHeader (front ++ rest) past
        (front ++ 57 :: fixEquals :: (text ++ [fixDelimiter])).length) := by
  have hfound : bodyLengthAt (front ++ rest) past front.length = some text :=
    bodyLengthAt_of_startsLength starts
  obtain ⟨hplain, rfl⟩ := starts
  have hdelimiter : stackByte (front ++ 57 :: fixEquals :: (text ++ fixDelimiter :: behind)) past
      (front.length + (2 + text.length)) = fixDelimiter := by
    rw [stackByte_behind, Nat.add_comm 2, List.cons_append, List.cons_append, List.append_assoc,
      List.getD_cons_succ, List.getD_cons_succ, List.getD_append_right _ _ _ _ (by omega)]
    simp
  have hnot : ¬ ((fixDelimiter : UInt8) = 51) := by decide
  have hnext : front.length + (2 + text.length) + 1 =
      (front ++ 57 :: fixEquals :: (text ++ [fixDelimiter])).length := by
    simp
    omega
  rw [scanHeader, if_pos (by simp), hfound]
  simp only [Option.elim_some, hdelimiter, hnot, false_and, if_false, hnext]

/-- Where the body starts, when this many bytes are found from it on. -/
def startOf (received : Bytes) (behind : Option Nat) : Nat :=
  behind.elim 0 fun behind => received.length - behind

/-- What is read is what the scan finds. -/
theorem scanHeader_of_reads {declared final : Int} {behind : Option Nat}
    (reads : Reads past declared rest final behind) (front : Bytes) :
    scanHeader (front ++ rest) past front.length (toSize declared) =
      .ok (toSize final, startOf (front ++ rest) behind) := by
  induction reads generalizing front with
  | ended declared =>
    rw [scanHeader_end _ (by simp)]
    rfl
  | @body declared bytes nonempty starts =>
    obtain ⟨hthree, hfive⟩ := (startsBody_iff nonempty).mp starts
    have hpos := List.length_pos_of_ne_nil nonempty
    rw [scanHeader_body (by simpa using hpos) hthree hfive]
    simp [startOf]
  | @bodyLength declared bytes text rest length final behind starts read reads ih =>
    have hbytes : front ++ bytes = (front ++ 57 :: fixEquals :: (text ++ [fixDelimiter])) ++ rest := by
      rw [starts.2]
      simp
    rw [scanHeader_length starts, read, hbytes]
    exact ih _
  | @other declared b rest final behind noBody noLength reads ih =>
    have hsame : front ++ b :: rest = (front ++ [b]) ++ rest := by simp
    rw [scanHeader_other noBody noLength, hsame]
    exact ih _

/-- A scan that ends has read something. -/
theorem reads_of_scanHeader {declared : Int} {found : Nat × Nat} (front rest : Bytes)
    (scan : scanHeader (front ++ rest) past front.length (toSize declared) = .ok found) :
    ∃ final behind, Reads past declared rest final behind := by
  induction hlength : rest.length using Nat.strong_induction_on
    generalizing front rest declared with
  | _ length ih =>
  cases rest with
  | nil => exact ⟨declared, none, .ended declared⟩
  | cons b rest =>
    by_cases hbody : StartsBody past (b :: rest)
    · exact ⟨_, _, .body declared (List.cons_ne_nil b rest) hbody⟩
    by_cases hstarts : ∃ text behind, StartsLength (b :: rest) text behind
    · obtain ⟨text, behind, starts⟩ := hstarts
      rw [scanHeader_length starts] at scan
      cases hread : stoi text with
      | error e => rw [hread] at scan; cases scan
      | ok value =>
        rw [hread] at scan
        have hbytes : front ++ b :: rest =
            (front ++ 57 :: fixEquals :: (text ++ [fixDelimiter])) ++ behind := by
          rw [starts.2]
          simp
        rw [hbytes] at scan
        have hshorter : behind.length < length := by
          rw [← hlength, starts.2]
          simp
          omega
        obtain ⟨final, found, reads⟩ := ih behind.length hshorter _ behind scan rfl
        exact ⟨final, found, .bodyLength declared starts hread reads⟩
    · have hnone : ∀ text behind, ¬ StartsLength (b :: rest) text behind :=
        fun text behind starts => hstarts ⟨text, behind, starts⟩
      rw [scanHeader_other hbody hnone] at scan
      have hshorter : rest.length < length := by
        rw [← hlength]
        exact Nat.lt_succ_self rest.length
      obtain ⟨final, found, reads⟩ := ih rest.length hshorter _ rest scan rfl
      exact ⟨final, found, .other hbody hnone reads⟩


/-- What is read is an `int`, and the bytes from `35` on are among those that are read. -/
theorem Reads.bounded {declared final : Int} {behind : Option Nat}
    (reads : Reads past declared rest final behind)
    (small : -2 ^ 31 ≤ declared ∧ declared ≤ 2 ^ 31 - 1) :
    (-2 ^ 31 ≤ final ∧ final ≤ 2 ^ 31 - 1) ∧ ∀ n, behind = some n → n ≤ rest.length := by
  induction reads with
  | ended declared => exact ⟨small, fun n h => by cases h⟩
  | body declared nonempty starts => exact ⟨small, fun n h => by cases h; exact Nat.le_refl _⟩
  | @bodyLength declared bytes text rest length final behind starts read reads ih =>
    obtain ⟨hfinal, hbehind⟩ := ih (stoi_range read)
    refine ⟨hfinal, fun n h => (hbehind n h).trans ?_⟩
    rw [starts.2]
    simp
    omega
  | other noBody noLength reads ih =>
    obtain ⟨hfinal, hbehind⟩ := ih small
    exact ⟨hfinal, fun n h => (hbehind n h).trans (Nat.le_succ _)⟩

/-- What the scan of the received bytes finds is what they show. -/
theorem scanHeader_iff {fixBodyLength receivedBodyStartIndex : Nat} :
    scanHeader received past 0 0 = .ok (fixBodyLength, receivedBodyStartIndex) ↔
      ∃ declared behind, Reads past 0 received declared behind ∧
        fixBodyLength = toSize declared ∧ receivedBodyStartIndex = startOf received behind := by
  have hempty (found : Nat × Nat) : scanHeader ([] ++ received) past ([] : Bytes).length
      (toSize 0) = .ok found ↔ scanHeader received past 0 0 = .ok found := Iff.rfl
  constructor
  · intro scan
    obtain ⟨declared, behind, reads⟩ := reads_of_scanHeader [] received ((hempty _).mpr scan)
    have hread := (hempty _).mp (scanHeader_of_reads reads [])
    have hfound := Except.ok.inj (scan.symm.trans hread)
    exact ⟨declared, behind, reads, congrArg Prod.fst hfound, congrArg Prod.snd hfound⟩
  · rintro ⟨declared, behind, reads, rfl, rfl⟩
    exact (hempty _).mp (scanHeader_of_reads reads [])

end Scan

/-! ## The sizes -/

theorem signed_toSize {value : Int} (small : -2 ^ 31 ≤ value ∧ value ≤ 2 ^ 31 - 1) :
    signed (toSize value) = value := by
  unfold signed toSize
  rw [Int.bmod_def]
  omega

/-- The difference in `size_t` is the difference of the numbers exactly when it is not negative,
and then it is small enough for the guard not to wrap. -/
theorem remainingBytes_iff {received start : Nat} {declared : Int}
    (small : -2 ^ 31 ≤ declared ∧ declared ≤ 2 ^ 31 - 1) (within : start ≤ received)
    (short : received ≤ initialBufferSize) :
    ((remainingBytes (toSize declared) received start : Int) =
        declared - (received - start) + trailerSize ∧
      ((remainingBytes (toSize declared) received start + initialBufferSize) % 2 ^ 64 ≤
          stackBufferSize →
        received + remainingBytes (toSize declared) received start ≤ stackBufferSize)) ↔
      ((received - start : Nat) : Int) ≤ declared + trailerSize := by
  unfold remainingBytes toSize trailerSize stackBufferSize initialBufferSize at *
  omega

theorem sizeExact_iff {received : Bytes} {past : UInt8} {declared : Int} {found : Option Nat}
    (reads : Reads past 0 received declared found) (short : received.length ≤ initialBufferSize) :
    SizeExact received (toSize declared) (startOf received found) ↔
      ((found.getD received.length : Nat) : Int) ≤ declared + trailerSize := by
  obtain ⟨hsmall, hbehind⟩ := reads.bounded (by decide)
  have hstart : startOf received found ≤ received.length ∧
      received.length - startOf received found = found.getD received.length := by
    cases found with
    | none => exact ⟨Nat.zero_le _, rfl⟩
    | some n =>
      have hn := hbehind n rfl
      exact ⟨Nat.sub_le _ _, Nat.sub_sub_self hn⟩
  rw [SizeExact, signed_toSize hsmall, ← hstart.2]
  exact remainingBytes_iff hsmall hstart.1 short

/-- The sizes are exact exactly when no more of the body was received than the declared length
and the trailer. -/
theorem sizesExact_iff (received : Bytes) (past : UInt8)
    (short : received.length ≤ initialBufferSize) : SizesExact received past ↔
      ∀ declared behind, Shows received past declared behind →
        (behind : Int) ≤ declared + trailerSize := by
  constructor
  · rintro exact declared behind ⟨found, reads, rfl⟩
    exact (sizeExact_iff reads short).mp (exact _ _ (scanHeader_iff.mpr ⟨_, found, reads, rfl, rfl⟩))
  · intro h fixBodyLength start scan
    obtain ⟨declared, found, reads, rfl, rfl⟩ := scanHeader_iff.mp scan
    exact (sizeExact_iff reads short).mpr (h declared _ ⟨found, reads, rfl⟩)

/-- One byte that arrives alone. -/
theorem sizesExact_one : SizesExact (ascii "8") 0 ↔
    ∀ declared behind, Shows (ascii "8") 0 declared behind →
      (behind : Int) ≤ declared + trailerSize :=
  sizesExact_iff (ascii "8") 0 (by decide)

/-- The version field without its delimiter arrives alone: no body length, nine bytes. -/
theorem not_sizesExact_version : ¬ SizesExact (ascii "8=FIX.4.2") 0 := by
  intro exact
  have hscan : scanHeader (ascii "8=FIX.4.2") 0 0 0 = .ok (0, 0) := by
    have hskip : scanHeader (ascii "8=FIX.4.2") 0 0 0 = scanHeader (ascii "8=FIX.4.2") 0 (0 + 9) 0 :=
      scanHeader_skip (by decide) (by decide)
    exact hskip.trans (scanHeader_end 0 (by decide))
  exact absurd (exact 0 0 hscan) (by decide)

end LiteExchange.Fix
