import Mathlib.Algebra.Ring.Nat
import Mathlib.Data.List.Induction
import VersionedRecords.Orders.Total
import VersionedRecords.Proofs.Orders.Books

/-!
Totals of orders: exact, or refused.

Prices are added in the order of the lines, and nothing is ever taken away again, so what has come
together so far never exceeds the exact sum.  That is why an order whose sum is small enough is
never refused on the way.  If the sum is too large, there is a first line at which a step fails, and
the price of that line alone decides which of its two steps it is.
-/

namespace VersionedRecords.Orders

/-- What a line asks for: so many pieces, at so many cents each. -/
structure Item where
  quantity : UInt32
  unitPrice : UInt64

def Item.price (i : Item) : Nat := i.quantity.toNat * i.unitPrice.toNat

/-- The numbers of an item stand in the fields of a line. -/
structure Asks (line : Snapshot) (i : Item) : Prop where
  quantity : line.field? "quantity" = some (.scalar (.key (.int i.quantity.toNat)))
  unitPrice : line.field? "unit_price_cents" = some (.scalar (.key (.int i.unitPrice.toNat)))

/-- The items of an order, each with the key of its line. -/
abbrev Bill := List (Key × Item)

/-- What the items of a bill cost together. -/
def Bill.cost (bill : Bill) : Nat := (bill.map fun row => row.2.price).sum

/-- The order exists, and its lines are the rows of the bill. -/
structure Bills (o : Snapshot) (bill : Bill) : Prop where
  layout : o.layout = order
  conforms : o.Conforms models
  lines : List.Forall₂ (fun line row => line.1 = row.1 ∧ Asks line.2 row.2) (linesOf o) bill

/-- A step at an item fails: its price is too large, or what it comes to with the rows in front. -/
def Bill.FailsAt (front : Bill) (i : Item) : Prop :=
  2 ^ 64 ≤ i.price ∨ 2 ^ 64 ≤ front.cost + i.price

/-- The first row of a bill at which a step fails, and the rows in front of it. -/
structure Bill.FirstFailure (bill front : Bill) (row : Key × Item) : Prop where
  stands : ∃ rest, bill = front ++ row :: rest
  fails : front.FailsAt row.2
  first : ∀ before earlier between, front = before ++ earlier :: between →
    ¬ Bill.FailsAt before earlier.2

section Sums

variable {bill front : Bill} {row : Key × Item}

theorem Bill.cost_nil : Bill.cost [] = 0 := rfl

theorem Bill.cost_cons (row : Key × Item) (bill : Bill) :
    Bill.cost (row :: bill) = row.2.price + bill.cost := List.sum_cons

theorem Bill.cost_append (front rest : Bill) :
    Bill.cost (front ++ rest) = front.cost + rest.cost := by
  rw [Bill.cost, List.map_append, List.sum_append]
  rfl

theorem Bill.failsAt_iff {i : Item} : front.FailsAt i ↔ 2 ^ 64 ≤ front.cost + i.price :=
  ⟨fun h => h.elim (fun h => Nat.le_trans h (Nat.le_add_left ..)) id, .inr⟩

/-- No step fails before the first one that does, so what has come together is exact. -/
theorem Bill.FirstFailure.cost_lt (h : bill.FirstFailure front row) : front.cost < 2 ^ 64 := by
  rcases List.eq_nil_or_concat front with rfl | ⟨before, last, hlast⟩
  · exact Nat.two_pow_pos 64
  · have hpassed := h.first before last [] (by simpa using hlast)
    rw [Bill.failsAt_iff, Nat.not_le] at hpassed
    rwa [hlast, List.concat_eq_append, Bill.cost_append, Bill.cost_cons, Bill.cost_nil]

/-- If a sum is too large, there is a first row at which it becomes so. -/
theorem Bill.exists_firstFailure (h : 2 ^ 64 ≤ bill.cost) :
    ∃ front row, bill.FirstFailure front row := by
  induction bill using List.reverseRecOn with
  | nil => exact absurd h (by decide)
  | append_singleton bill row ih =>
    by_cases hbill : 2 ^ 64 ≤ Bill.cost bill
    · obtain ⟨front, row', ⟨rest, rfl⟩, hfails, hfirst⟩ := ih hbill
      exact ⟨front, row', ⟨rest ++ [row], by simp⟩, hfails, hfirst⟩
    · refine ⟨bill, row, ⟨[], rfl⟩, ?_, ?_⟩
      · rwa [Bill.failsAt_iff, ← Nat.add_zero (row.2.price), ← Bill.cost_nil, ← Bill.cost_cons,
          ← Bill.cost_append]
      · rintro before earlier between rfl
        rw [Bill.failsAt_iff, Nat.not_le]
        rw [Bill.cost_append, Bill.cost_cons] at hbill
        omega

end Sums

/-! ### Adding up -/

section Adding

variable {line : Snapshot} {i : Item} {lines : List Snapshot} {bill front rest : Bill}

theorem Asks.linePrice_eq (h : Asks line i) : linePrice line = i.price := by
  simp only [linePrice, numberIn, h.quantity, h.unitPrice, Int.toNat_natCast]
  rfl

/-- A line that does not fail adds its price. -/
theorem sumLines_cons_of_lt (h : Asks line i) {sum : Nat} (hsum : sum + i.price < 2 ^ 64) :
    sumLines sum (line :: lines) = sumLines (sum + i.price) lines := by
  have hprice : i.price < amountLimit := Nat.lt_of_le_of_lt (Nat.le_add_left ..) hsum
  have hstep : sum + i.price < amountLimit := hsum
  rw [sumLines, lineTotal, h.linePrice_eq, if_pos hprice]
  exact if_pos hstep

/-- A line at which a step fails is refused by its own price, or else by the sum. -/
theorem sumLines_cons_of_le (h : Asks line i) {sum : Nat} (hsum : 2 ^ 64 ≤ sum + i.price) :
    sumLines sum (line :: lines) =
      .error (if 2 ^ 64 ≤ i.price then .multiplication else .addition) := by
  have hstep : ¬ sum + i.price < amountLimit := Nat.not_lt.2 hsum
  rw [sumLines, lineTotal, h.linePrice_eq]
  by_cases hprice : 2 ^ 64 ≤ i.price
  · have hlarge : ¬ i.price < amountLimit := Nat.not_lt.2 hprice
    rw [if_neg hlarge, if_pos hprice]
    rfl
  · have hsmall : i.price < amountLimit := Nat.not_le.1 hprice
    rw [if_pos hsmall, if_neg hprice]
    exact if_neg hstep

/-- Lines in front that do not fail add what they cost together. -/
theorem sumLines_append (h : List.Forall₂ (fun line row => Asks line row.2) lines front)
    {sum : Nat} (hsum : sum + front.cost < 2 ^ 64) (behind : List Snapshot) :
    sumLines sum (lines ++ behind) = sumLines (sum + front.cost) behind := by
  induction h generalizing sum with
  | nil => rfl
  | @cons line row lines front hline _ ih =>
    rw [Bill.cost_cons, ← Nat.add_assoc] at hsum
    rw [List.cons_append, sumLines_cons_of_lt hline (by omega), ih hsum, Bill.cost_cons,
      Nat.add_assoc]

variable {o : Snapshot}

theorem Bills.asks (h : Bills o bill) :
    List.Forall₂ (fun line row => Asks line row.2) ((linesOf o).map Prod.snd) bill :=
  List.forall₂_map_left_iff.2 (h.lines.imp fun _ _ hline => hline.2)

theorem Bills.total_of_lt (h : Bills o bill) (hsum : bill.cost < 2 ^ 64) :
    total o = .ok bill.cost := by
  have hbelow : 0 + bill.cost < 2 ^ 64 := by rwa [Nat.zero_add]
  have hadded := sumLines_append h.asks hbelow []
  rw [List.append_nil, Nat.zero_add] at hadded
  rw [total, hadded, sumLines]

theorem Bills.total_of_firstFailure (h : Bills o bill) {row : Key × Item}
    (hfirst : bill.FirstFailure front row) : total o =
      .error (if 2 ^ 64 ≤ row.2.price then .multiplication else .addition) := by
  obtain ⟨rest, rfl⟩ := hfirst.stands
  have hasks := h.asks
  have hfront := List.forall₂_take_append _ _ _ hasks
  have hbehind := List.forall₂_drop_append _ _ _ hasks
  rw [total, ← List.take_append_drop front.length ((linesOf o).map Prod.snd),
    sumLines_append hfront (by simpa using hfirst.cost_lt)]
  generalize ((linesOf o).map Prod.snd).drop front.length = behind at hbehind
  cases hbehind with
  | cons hline _ =>
    refine sumLines_cons_of_le hline ?_
    rw [Nat.zero_add]
    exact Bill.failsAt_iff.1 hfirst.fails

/-- The lines of an order stand in the order of their keys. -/
theorem ascending_linesOf (hlayout : o.layout = order) (hconforms : o.Conforms models) :
    Keyed.Ascending (linesOf o) := by
  rw [linesOf]
  split
  · next origin es hes =>
    have hindex : order.indexOf? "lines" = some 5 := by decide
    have hvalue : o.fields[5]? = some (.modelMap origin es) := by
      rwa [Snapshot.field?, hlayout, hindex] at hes
    obtain ⟨kind, hkind, hconformed⟩ :=
      exists_getElem?_left (Snapshot.conforms_iff.1 hconforms) hvalue
    rw [hlayout] at hkind
    obtain rfl : .modelMap .line "LineItem" = kind := Option.some.inj hkind
    exact hconformed.1
  · exact List.Pairwise.nil

end Adding

/-- An order costs exactly what its items cost together if that is below `2 ^ 64`, and is refused
otherwise.  What it is refused for is settled by the first line, in the order of the keys, at which
a step fails: the multiplication if the price of that line is itself too large, and else the
addition. -/
theorem total_exact {o : Snapshot} {bill : Bill} (h : Bills o bill) :
    (bill.Pairwise fun a b => a.1.precedes b.1 = true) ∧
    (bill.cost < 2 ^ 64 → total o = .ok bill.cost) ∧
    (2 ^ 64 ≤ bill.cost → ∃ front row, bill.FirstFailure front row) ∧
    ∀ front row, bill.FirstFailure front row →
      total o = .error (if 2 ^ 64 ≤ row.2.price then .multiplication else .addition) := by
  refine ⟨?_, h.total_of_lt, Bill.exists_firstFailure, fun _ _ => h.total_of_firstFailure⟩
  have hkeys : (linesOf o).map Prod.fst = bill.map Prod.fst := by
    rw [← List.forall₂_eq_eq_eq, List.forall₂_map_left_iff, List.forall₂_map_right_iff]
    exact h.lines.imp fun _ _ hline => hline.1
  have hascending : ((linesOf o).map Prod.fst).Pairwise fun a b => a.precedes b = true :=
    List.pairwise_map.2 (ascending_linesOf h.layout h.conforms)
  rw [hkeys] at hascending
  exact List.pairwise_map.1 hascending

/-- The line of a row. -/
def lineOf (row : Key × Item) : Snapshot :=
  ⟨lineItem, row.1, .zero, [.scalar (.key (.text "")),
    .scalar (.key (.int row.2.quantity.toNat)), .scalar (.key (.int row.2.unitPrice.toNat))]⟩

/-- An order with the rows of a bill for its lines, and nothing else in it. -/
def listing (bill : Bill) : Snapshot :=
  ⟨order, .int 1, .zero, [.scalar (.variant "Draft"), .nested none, .attached none,
    .keySet .zero [], .valueMap .zero [],
    .modelMap .zero (bill.map fun row => (row.1, lineOf row))]⟩

theorem conforms_lineOf (row : Key × Item) : (lineOf row).Conforms models := by
  refine Snapshot.conforms_iff.2 (.cons ?_ (.cons ?_ (.cons ?_ .nil)))
  all_goals exact Snapshot.valueConforms_scalar.2 ⟨_, rfl, trivial⟩

theorem conforms_listing {bill : Bill} (h : bill.Pairwise fun a b => a.1.precedes b.1 = true) :
    (listing bill).Conforms models := by
  refine Snapshot.conforms_iff.2 (.cons ?status (.cons ?customer (.cons ?placed
    (.cons ?tags (.cons ?notes (.cons ?lines .nil))))))
  case status => exact Snapshot.valueConforms_scalar.2 ⟨_, rfl, trivial⟩
  case customer => exact Snapshot.valueConforms_zero (.nested "Customer")
  case placed => exact Snapshot.valueConforms_zero (.attached .timestamp)
  case tags => exact Snapshot.valueConforms_zero (.keySet .text)
  case notes => exact Snapshot.valueConforms_zero (.valueMap .text (.key .text))
  case lines =>
    refine Snapshot.valueConforms_modelMap.2 ⟨_, _, rfl, List.pairwise_map.2 h, fun e he => ?_⟩
    obtain ⟨row, -, rfl⟩ := List.mem_map.1 he
    exact ⟨rfl, conforms_lineOf row⟩

/-- Every bill with its rows in the order of their keys is that of an order. -/
theorem bills_listing {bill : Bill} (h : bill.Pairwise fun a b => a.1.precedes b.1 = true) :
    Bills (listing bill) bill := by
  have hlines : linesOf (listing bill) = bill.map fun row => (row.1, lineOf row) := rfl
  refine ⟨rfl, conforms_listing h, ?_⟩
  rw [hlines, List.forall₂_map_left_iff, List.forall₂_same]
  exact fun row _ => ⟨rfl, rfl, rfl⟩

/-- The largest total there can be, with a line behind it that costs nothing. -/
def fullBill : Bill := [(.line 1 1, ⟨1, 18446744073709551615⟩), (.line 1 2, ⟨0, 5⟩)]

/-- A line that is too dear by itself, where the sum would be too large as well. -/
def dearBill : Bill := [(.line 1 1, ⟨1, 18446744073709551615⟩),
  (.line 1 2, ⟨2, 9223372036854775808⟩)]

/-- A line that is one cent too much, in front of one that is too dear by itself. -/
def longBill : Bill := [(.line 1 1, ⟨1, 18446744073709551615⟩), (.line 1 2, ⟨1, 1⟩),
  (.line 1 3, ⟨4294967295, 18446744073709551615⟩)]

/-- One order is at the limit; of the two beyond it, one is refused for a product and the other for
a sum. -/
theorem total_exact_of_bills :
    (Bills (listing fullBill) fullBill ∧ fullBill.cost < 2 ^ 64 ∧
      total (listing fullBill) = .ok 18446744073709551615) ∧
    (Bills (listing dearBill) dearBill ∧ 2 ^ 64 ≤ dearBill.cost ∧
      dearBill.FirstFailure [(.line 1 1, ⟨1, 18446744073709551615⟩)]
        (.line 1 2, ⟨2, 9223372036854775808⟩) ∧
      total (listing dearBill) = .error .multiplication) ∧
    Bills (listing longBill) longBill ∧ 2 ^ 64 ≤ longBill.cost ∧
      longBill.FirstFailure [(.line 1 1, ⟨1, 18446744073709551615⟩)] (.line 1 2, ⟨1, 1⟩) ∧
      total (listing longBill) = .error .addition := by
  have hpassed : ∀ before earlier between,
      ([(.line 1 1, ⟨1, 18446744073709551615⟩)] : Bill) = before ++ earlier :: between →
      ¬ Bill.FailsAt before earlier.2 := by
    intro before earlier between h
    cases before with
    | nil =>
      cases h
      rw [Bill.failsAt_iff]
      decide
    | cons first before => simp at h
  have hfull : Bills (listing fullBill) fullBill := bills_listing (by decide)
  have hdear : Bills (listing dearBill) dearBill := bills_listing (by decide)
  have hlong : Bills (listing longBill) longBill := bills_listing (by decide)
  have hdearFirst : dearBill.FirstFailure [(.line 1 1, ⟨1, 18446744073709551615⟩)]
      (.line 1 2, ⟨2, 9223372036854775808⟩) :=
    ⟨⟨_, rfl⟩, .inl (by decide), hpassed⟩
  have hlongFirst : longBill.FirstFailure [(.line 1 1, ⟨1, 18446744073709551615⟩)]
      (.line 1 2, ⟨1, 1⟩) :=
    ⟨⟨_, rfl⟩, .inr (by decide), hpassed⟩
  have hsmall : fullBill.cost < 2 ^ 64 := by decide
  exact ⟨⟨hfull, hsmall, (total_exact hfull).2.1 hsmall⟩,
    ⟨hdear, by decide, hdearFirst, (total_exact hdear).2.2.2 _ _ hdearFirst⟩,
    hlong, by decide, hlongFirst, (total_exact hlong).2.2.2 _ _ hlongFirst⟩

end VersionedRecords.Orders
