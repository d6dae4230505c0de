import Mathlib.Data.List.Sort
import Mathlib.Order.Defs.Unbundled

/-!
# Price lists with stable insertion

A multimap keyed by a price and iterated in key order is a list; inserting an
entry puts it behind every entry whose key is not strictly worse, which is
`List.orderedInsert` for the strict comparison of prices. The first half of
this module shows that such a list stays ordered by price and then by arrival.
The second half is about the first entry that satisfies a predicate: the entry
a linear search finds, an update of it in place and its removal.
-/

namespace Foundation.PriorityList

section Insertion

variable {α κ : Type*} (better : κ → κ → Prop) (price : α → κ) (arrival : α → ℕ)

/-- A strictly better price, or the same price and an earlier arrival. -/
def Precedes (a b : α) : Prop :=
  better (price a) (price b) ∨ price a = price b ∧ arrival a < arrival b

variable {better price arrival}

theorem Precedes.trans [IsTrans κ better] {a b c : α} (hab : Precedes better price arrival a b)
    (hbc : Precedes better price arrival b c) : Precedes better price arrival a c := by
  rcases hab with hab | ⟨hab, hlt⟩
  · rcases hbc with hbc | ⟨hbc, _⟩
    · exact Or.inl (IsTrans.trans _ _ _ hab hbc)
    · exact Or.inl (hbc ▸ hab)
  · rcases hbc with hbc | ⟨hbc, hlt'⟩
    · exact Or.inl (hab ▸ hbc)
    · exact Or.inr ⟨hab.trans hbc, hlt.trans hlt'⟩

theorem Precedes.asymm [IsStrictOrder κ better] {a b : α}
    (hab : Precedes better price arrival a b) : ¬ Precedes better price arrival b a := by
  intro hba
  rcases Precedes.trans hab hba with h | ⟨_, h⟩
  · exact irrefl _ h
  · exact Nat.lt_irrefl _ h

/-- Entries that agree on price and arrival take each other's place. -/
theorem Precedes.congr {a a' b b' : α} (hprice : price a' = price a)
    (harrival : arrival a' = arrival a) (hprice' : price b' = price b)
    (harrival' : arrival b' = arrival b) (hab : Precedes better price arrival a b) :
    Precedes better price arrival a' b' := by
  rcases hab with hab | ⟨hab, hlt⟩
  · left
    rwa [hprice, hprice']
  · right
    rw [hprice, hprice', harrival, harrival']
    exact ⟨hab, hlt⟩

/-- Insertion before the first entry that is strictly behind keeps the list
ordered by a transitive relation that decides every entry against the new one. -/
theorem pairwise_orderedInsert {before ahead : α → α → Prop} [DecidableRel before]
    (transitive : ∀ a b c, ahead a b → ahead b c → ahead a c) {x : α} {entries : List α}
    (sorted : entries.Pairwise ahead) (front : ∀ y ∈ entries, before x y → ahead x y)
    (behind : ∀ y ∈ entries, ¬ before x y → ahead y x) :
    (entries.orderedInsert before x).Pairwise ahead := by
  induction entries with
  | nil => simp
  | cons y rest ih =>
    have hy := (List.pairwise_cons.mp sorted).1
    have hrest := (List.pairwise_cons.mp sorted).2
    rw [List.orderedInsert_cons]
    by_cases hxy : before x y
    · rw [if_pos hxy]
      have hx := front y List.mem_cons_self hxy
      refine List.pairwise_cons.mpr ⟨fun z hz => ?_, sorted⟩
      rcases List.mem_cons.mp hz with rfl | hz
      · exact hx
      · exact transitive x y z hx (hy z hz)
    · rw [if_neg hxy]
      have hinserted := ih hrest (fun z hz => front z (List.mem_cons_of_mem y hz))
        (fun z hz => behind z (List.mem_cons_of_mem y hz))
      refine List.pairwise_cons.mpr ⟨fun z hz => ?_, hinserted⟩
      rcases (List.mem_orderedInsert _).mp hz with rfl | hz
      · exact behind y List.mem_cons_self hxy
      · exact hy z hz

/-- Stable insertion: an entry that arrived after all the others lands behind
its price level, and the list stays ordered by price and then by arrival. -/
theorem pairwise_insert_latest [DecidableRel better] [IsStrictTotalOrder κ better] {x : α}
    {entries : List α} (sorted : entries.Pairwise (Precedes better price arrival))
    (latest : ∀ y ∈ entries, arrival y < arrival x) :
    (entries.orderedInsert (fun a b => better (price a) (price b)) x).Pairwise
      (Precedes better price arrival) := by
  apply pairwise_orderedInsert (fun a b c => Precedes.trans) sorted
  · intro y _ hxy
    exact Or.inl hxy
  · intro y hy hxy
    rcases trichotomous_of better (price y) (price x) with h | h | h
    · exact Or.inl h
    · exact Or.inr ⟨h, latest y hy⟩
    · exact absurd h hxy

variable (better price) in
/-- Insertion keeps the list ordered by price, whatever the arrivals are. -/
theorem pairwise_insert_price [DecidableRel better] [IsStrictTotalOrder κ better] {x : α}
    {entries : List α} (sorted : entries.Pairwise fun a b => ¬ better (price b) (price a)) :
    (entries.orderedInsert (fun a b => better (price a) (price b)) x).Pairwise
      fun a b => ¬ better (price b) (price a) := by
  apply pairwise_orderedInsert _ sorted
  · intro y _ hxy
    exact asymm_of better hxy
  · intro y _ hxy
    exact hxy
  · intro a b c hab hbc hca
    rcases trichotomous_of better (price b) (price a) with h | h | h
    · exact hab h
    · rw [h] at hbc
      exact hbc hca
    · exact hbc (trans_of better hca h)

/-- A predicate that an ordered list loses for good splits it at that point. -/
theorem split_of_pairwise {ahead : α → α → Prop} (holds : α → Prop) [DecidablePred holds]
    {entries : List α} (sorted : entries.Pairwise ahead)
    (back : ∀ a b, ahead a b → ¬ holds a → ¬ holds b) :
    ∃ front rest, entries = front ++ rest ∧ (∀ a ∈ front, holds a) ∧ ∀ a ∈ rest, ¬ holds a := by
  induction entries with
  | nil => exact ⟨[], [], by simp⟩
  | cons a entries ih =>
    obtain ⟨hahead, hsorted⟩ := List.pairwise_cons.mp sorted
    by_cases ha : holds a
    · obtain ⟨front, rest, rfl, hfront, hrest⟩ := ih hsorted
      exact ⟨a :: front, rest, rfl, List.forall_mem_cons.mpr ⟨ha, hfront⟩, hrest⟩
    · refine ⟨[], a :: entries, rfl, by simp, List.forall_mem_cons.mpr ⟨ha, fun b hb => ?_⟩⟩
      exact back a b (hahead b hb) ha

/-- Insertion goes between the entries that stay in front and those that do not. -/
theorem orderedInsert_append {before : α → α → Prop} [DecidableRel before] {x : α}
    {front back : List α} (ahead : ∀ y ∈ front, ¬ before x y) (behind : ∀ y ∈ back, before x y) :
    (front ++ back).orderedInsert before x = front ++ x :: back := by
  induction front with
  | nil =>
    cases back with
    | nil => rfl
    | cons y back => exact List.orderedInsert_cons_of_le before back (behind y List.mem_cons_self)
  | cons y front ih =>
    obtain ⟨hy, hfront⟩ := List.forall_mem_cons.mp ahead
    rw [List.cons_append, List.orderedInsert_cons, if_neg hy, ih hfront, List.cons_append]

/-- Insertion happens in front of an entry or behind it, whatever stands behind it. -/
theorem orderedInsert_around (before : α → α → Prop) [DecidableRel before] (x y : α)
    (front : List α) :
    (∀ back, (front ++ y :: back).orderedInsert before x =
        front.orderedInsert before x ++ y :: back) ∨
      ∀ back, (front ++ y :: back).orderedInsert before x =
        front ++ y :: back.orderedInsert before x := by
  induction front with
  | nil =>
    by_cases hxy : before x y
    · left
      intro back
      exact List.orderedInsert_cons_of_le before back hxy
    · right
      intro back
      exact List.orderedInsert_of_not_le before back hxy
  | cons z front ih =>
    by_cases hxz : before x z
    · left
      intro back
      rw [List.cons_append, List.orderedInsert_cons_of_le before _ hxz,
        List.orderedInsert_cons_of_le before _ hxz]
      rfl
    · rcases ih with ih | ih
      · left
        intro back
        rw [List.cons_append, List.orderedInsert_of_not_le before _ hxz,
          List.orderedInsert_of_not_le before _ hxz, ih back]
        rfl
      · right
        intro back
        rw [List.cons_append, List.orderedInsert_of_not_le before _ hxz, ih back]
        rfl

/-- Insertion into an ordered list with an entry and without it. -/
theorem orderedInsert_without {before : α → α → Prop} [DecidableRel before] {x y : α}
    {front back : List α} (sorted : (front ++ y :: back).Pairwise fun a b => ¬ before b a)
    (weaker : ∀ a b, before x a → ¬ before b a → before x b) :
    (∃ ahead, (front ++ y :: back).orderedInsert before x = ahead ++ y :: back ∧
        (front ++ back).orderedInsert before x = ahead ++ back ∧
        ∀ z, z ∈ ahead ↔ z = x ∨ z ∈ front) ∨
      ∃ next, (front ++ y :: back).orderedInsert before x = front ++ y :: next ∧
        (front ++ back).orderedInsert before x = front ++ next ∧
        ∀ z, z ∈ next ↔ z = x ∨ z ∈ back := by
  induction front with
  | nil =>
    by_cases hxy : before x y
    · left
      refine ⟨[x], List.orderedInsert_cons_of_le before back hxy, ?_, by simp⟩
      cases back with
      | nil => rfl
      | cons z back =>
        have hz := (List.pairwise_cons.mp sorted).1 z List.mem_cons_self
        exact List.orderedInsert_cons_of_le before back (weaker y z hxy hz)
    · right
      exact ⟨back.orderedInsert before x, List.orderedInsert_of_not_le before back hxy, rfl,
        fun z => List.mem_orderedInsert before⟩
  | cons z front ih =>
    by_cases hxz : before x z
    · left
      exact ⟨x :: z :: front, List.orderedInsert_cons_of_le before _ hxz,
        List.orderedInsert_cons_of_le before _ hxz, fun _ => List.mem_cons⟩
    · have hpast (entries : List α) :
          (z :: entries).orderedInsert before x = z :: entries.orderedInsert before x :=
        List.orderedInsert_of_not_le before entries hxz
      rcases ih (List.pairwise_cons.mp sorted).2 with
        ⟨ahead, hwith, hwithout, hmem⟩ | ⟨next, hwith, hwithout, hmem⟩
      · left
        refine ⟨z :: ahead, ?_, ?_, fun other => ?_⟩
        · rw [List.cons_append, hpast, hwith]
          rfl
        · rw [List.cons_append, hpast, hwithout]
          rfl
        · rw [List.mem_cons, hmem, List.mem_cons]
          exact or_left_comm
      · right
        refine ⟨next, ?_, ?_, hmem⟩
        · rw [List.cons_append, hpast, hwith]
          rfl
        · rw [List.cons_append, hpast, hwithout]
          rfl

/-- Insertion goes past the entries that it is not in front of. -/
theorem orderedInsert_past {before : α → α → Prop} [DecidableRel before] {x : α}
    {front : List α} (ahead : ∀ y ∈ front, ¬ before x y) (back : List α) :
    (front ++ back).orderedInsert before x = front ++ back.orderedInsert before x := by
  induction front with
  | nil => rfl
  | cons y front ih =>
    obtain ⟨hy, hfront⟩ := List.forall_mem_cons.mp ahead
    rw [List.cons_append, List.orderedInsert_of_not_le before _ hy, ih hfront]
    rfl

/-- An order of the entries by a key is an order of the list of keys. -/
theorem pairwise_of_map_eq {β : Type*} {R : β → β → Prop} {key : α → β} {entries others : List α}
    (same : others.map key = entries.map key)
    (sorted : entries.Pairwise fun a b => R (key a) (key b)) :
    others.Pairwise fun a b => R (key a) (key b) := by
  have hkeys := List.pairwise_map.mpr sorted
  rw [← same] at hkeys
  exact List.pairwise_map.mp hkeys

/-- No entry of an ordered list comes before its head. -/
theorem not_precedes_head [IsStrictOrder κ better] {x : α} {rest : List α}
    (sorted : (x :: rest).Pairwise (Precedes better price arrival)) {y : α}
    (hy : y ∈ x :: rest) : ¬ Precedes better price arrival y x := by
  rcases List.mem_cons.mp hy with rfl | hy
  · intro h
    exact Precedes.asymm h h
  · exact Precedes.asymm ((List.pairwise_cons.mp sorted).1 y hy)

end Insertion

section FirstMatch

variable {α β : Type*} (found : α → Bool) (f : α → α)

/-- Update in place the first entry that satisfies the predicate. -/
def modifyFirst : List α → List α
  | [] => []
  | a :: rest => if found a then f a :: rest else a :: modifyFirst rest

variable {found f}

/-- The first match splits the list; updating and erasing act at that point. -/
theorem split_of_find {entries : List α} {a : α} (h : entries.find? found = some a) :
    ∃ front back, entries = front ++ a :: back ∧ found a = true ∧
      (∀ b ∈ front, found b = false) ∧
      entries.eraseP found = front ++ back ∧
      modifyFirst found f entries = front ++ f a :: back := by
  induction entries with
  | nil => simp at h
  | cons b rest ih =>
    cases hb : found b with
    | true =>
      simp only [List.find?_cons, hb, Option.some.injEq] at h
      subst h
      exact ⟨[], rest, by simp [hb, modifyFirst]⟩
    | false =>
      simp only [List.find?_cons, hb] at h
      obtain ⟨front, back, hsplit, ha, hfront, herase, hmodify⟩ := ih h
      refine ⟨b :: front, back, by simp [hsplit], ha, ?_, by simp [hb, herase], by
        simp [modifyFirst, hb, hmodify]⟩
      intro c hc
      rcases List.mem_cons.mp hc with rfl | hc
      · exact hb
      · exact hfront c hc

theorem firstMatch_front {front : List α} {b : α} (h : front.find? found = some b)
    (back : List α) : (front ++ back).find? found = some b ∧
      (front ++ back).eraseP found = front.eraseP found ++ back :=
  ⟨by rw [List.find?_append, h, Option.some_or],
    List.eraseP_append_left (List.find?_some h) _ (List.mem_of_find?_eq_some h)⟩

theorem firstMatch_back {front : List α} (h : front.find? found = none) (back : List α) :
    (front ++ back).find? found = back.find? found ∧
      (front ++ back).eraseP found = front ++ back.eraseP found :=
  ⟨by rw [List.find?_append, h, Option.none_or],
    List.eraseP_append_right _ (List.find?_eq_none.mp h)⟩

theorem firstMatch_cons {a : α} (h : found a = false) (back : List α) :
    (a :: back).find? found = back.find? found ∧
      (a :: back).eraseP found = a :: back.eraseP found :=
  ⟨by rw [List.find?_cons, h], by rw [List.eraseP_cons, h]; rfl⟩

/-- The first match is in front of an entry, is this entry or is behind it, whatever stands
there. -/
theorem firstMatch_around (found : α → Bool) (front : List α) (a : α) :
    (∃ b, front.find? found = some b ∧ ∀ back, (front ++ a :: back).find? found = some b ∧
        (front ++ a :: back).eraseP found = front.eraseP found ++ a :: back) ∨
      (found a = true ∧ ∀ back, (front ++ a :: back).find? found = some a ∧
        (front ++ a :: back).eraseP found = front ++ back) ∨
      (front.find? found = none ∧ ∀ back, (front ++ a :: back).find? found = back.find? found ∧
        (front ++ a :: back).eraseP found = front ++ a :: back.eraseP found) := by
  cases hfront : front.find? found with
  | some b => exact Or.inl ⟨b, rfl, fun back => firstMatch_front hfront (a :: back)⟩
  | none =>
    cases ha : found a with
    | true =>
      refine Or.inr (Or.inl ⟨rfl, fun back => ?_⟩)
      obtain ⟨hfind, herase⟩ := firstMatch_back hfront (a :: back)
      rw [hfind, herase, List.find?_cons_of_pos ha, List.eraseP_cons_of_pos ha]
      exact ⟨rfl, rfl⟩
    | false =>
      refine Or.inr (Or.inr ⟨rfl, fun back => ?_⟩)
      obtain ⟨hfind, herase⟩ := firstMatch_back hfront (a :: back)
      obtain ⟨hfind', herase'⟩ := firstMatch_cons ha back
      rw [hfind, herase, hfind', herase']
      exact ⟨rfl, rfl⟩

/-- The first match is an entry, or it is the same without the entry. -/
theorem firstMatch_without (found : α → Bool) (front : List α) (a : α) (back : List α) :
    (found a = true ∧ (front ++ a :: back).find? found = some a ∧
        (front ++ a :: back).eraseP found = front ++ back) ∨
      ∃ front' back', (front ++ a :: back).find? found = (front ++ back).find? found ∧
        (front ++ a :: back).eraseP found = front' ++ a :: back' ∧
        (front ++ back).eraseP found = front' ++ back' := by
  rcases firstMatch_around found front a with ⟨b, hfront, haround⟩ | ⟨ha, haround⟩ |
    ⟨hfront, haround⟩
  · obtain ⟨hfind, herase⟩ := firstMatch_front hfront back
    exact Or.inr ⟨_, back, (haround back).1.trans hfind.symm, (haround back).2, herase⟩
  · exact Or.inl ⟨ha, haround back⟩
  · obtain ⟨hfind, herase⟩ := firstMatch_back hfront back
    exact Or.inr ⟨front, _, (haround back).1.trans hfind.symm, (haround back).2, herase⟩

/-- Erasing the first match forgets an update of it that keeps it a match. -/
theorem eraseP_modifyFirst (keeps : ∀ a, found a = true → found (f a) = true) (entries : List α) :
    (modifyFirst found f entries).eraseP found = entries.eraseP found := by
  induction entries with
  | nil => rfl
  | cons b rest ih =>
    cases hb : found b with
    | true => simp [modifyFirst, hb, keeps b hb]
    | false => simp [modifyFirst, hb, ih]

theorem map_modifyFirst {g : α → β} (keeps : ∀ a, g (f a) = g a) (entries : List α) :
    (modifyFirst found f entries).map g = entries.map g := by
  induction entries with
  | nil => rfl
  | cons b rest ih =>
    unfold modifyFirst
    split
    · simp [keeps]
    · simp [ih]

/-- An entry that does not match is not touched. -/
theorem mem_modifyFirst_of_neg {entries : List α} {x : α} (hmem : x ∈ entries)
    (hother : found x = false) : x ∈ modifyFirst found f entries := by
  induction entries with
  | nil => cases hmem
  | cons b rest ih =>
    unfold modifyFirst
    rcases List.mem_cons.mp hmem with rfl | hrest
    · simp [hother]
    · split
      · exact List.mem_cons_of_mem _ hrest
      · exact List.mem_cons_of_mem b (ih hrest)

theorem mem_modifyFirst {entries : List α} {x : α} (h : x ∈ modifyFirst found f entries) :
    x ∈ entries ∨ ∃ a ∈ entries, x = f a := by
  induction entries with
  | nil => exact absurd h List.not_mem_nil
  | cons b rest ih =>
    unfold modifyFirst at h
    split at h
    · rcases List.mem_cons.mp h with rfl | h
      · exact Or.inr ⟨b, List.mem_cons_self, rfl⟩
      · exact Or.inl (List.mem_cons_of_mem b h)
    · rcases List.mem_cons.mp h with rfl | h
      · exact Or.inl List.mem_cons_self
      · rcases ih h with h | ⟨a, ha, rfl⟩
        · exact Or.inl (List.mem_cons_of_mem b h)
        · exact Or.inr ⟨a, List.mem_cons_of_mem b ha, rfl⟩

end FirstMatch

end Foundation.PriorityList
