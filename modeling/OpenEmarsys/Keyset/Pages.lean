import Mathlib.Data.List.Induction
import Mathlib.Data.List.Nodup
import Mathlib.Order.Lattice

/-! Keyset pagination: a list in descending order of its keys, page by page.

A cursor stands for the last row of a page. The next page holds what comes first below it.
-/

set_option autoImplicit false

namespace OpenEmarsys.Keyset

structure Page (Cursor Item : Type) where
  items : List Item
  next : Option Cursor

section Walks
variable {Cursor Item ε : Type}

/-- What is fetched from a cursor on, until there is no next one. -/
inductive Walk (fetch : Option Cursor → Except ε (Page Cursor Item)) : Option Cursor →
  List (List Item) → Prop where
  | last {cursor : Option Cursor} {items : List Item} (fetched : fetch cursor = .ok ⟨items,
    none⟩) : Walk fetch cursor [items]
  | more {cursor : Option Cursor} {items : List Item} {next : Cursor} {later : List (List Item)}
      (fetched : fetch cursor = .ok ⟨items, some next⟩) (rest : Walk fetch (some next) later) : Walk fetch
        cursor (items :: later)

theorem Walk.nonempty {fetch : Option Cursor → Except ε (Page Cursor Item)} {cursor : Option Cursor}
    {pages : List (List Item)} (walk : Walk fetch cursor pages) : pages ≠ [] := by
  cases walk <;> exact List.cons_ne_nil _ _

end Walks

section Pages
variable {Cursor Item Row κ ε : Type}

/-- The first rows, and a cursor at the last of them unless they are all. -/
def pageOf (limit : Nat) (cursorOf : Row → Cursor) (item : Row → Item) (rest : List Row) :
    Page Cursor Item where
  items := (rest.take limit).map item
  next := if limit < rest.length then (rest.take limit).getLast?.map cursorOf else none

theorem pageOf_take (limit : Nat) (cursorOf : Row → Cursor) (item : Row → Item) (rest : List Row) :
    pageOf limit cursorOf item (rest.take (limit + 1)) = pageOf limit cursorOf item rest := by
  have same : (rest.take (limit + 1)).take limit = rest.take limit := by
    rw [List.take_take, Nat.min_eq_left (Nat.le_succ limit)]
  have more : limit < (rest.take (limit + 1)).length ↔ limit < rest.length := by
    rw [List.length_take]
    omega
  simp only [pageOf, same, more]

def Full (limit : Nat) (pages : List (List Row)) : Prop := ∀ page ∈ pages.dropLast, page.length = limit

theorem full_cons {limit : Nat} {page : List Row} {later : List (List Row)} (filled : page.length = limit)
    (full : Full limit later) :
    Full limit (page :: later) := by
  cases later with
  | nil => intro other member; cases member
  | cons second others =>
    intro other member
    rw [List.dropLast_cons_cons] at member
    rcases List.mem_cons.mp member with rfl | member
    · exact filled
    · exact full other member

-- If each page has what comes after the one before, they are the whole list.
theorem walk_rest {limit : Nat} {cursorOf : Row → Cursor} {item : Row → Item}
    {fetch : Option Cursor → Except ε (Page Cursor Item)}
    {all : List Row} (positive : 0 < limit)
    (answers : ∀ before rest, all = before ++ rest →
      fetch (before.getLast?.map cursorOf) = .ok (pageOf limit cursorOf item rest))
    (before rest : List Row) (split : all = before ++ rest) :
    ∃ pages : List (List Row), Walk fetch (before.getLast?.map cursorOf) (pages.map (List.map item)) ∧
      pages.flatten = rest ∧
      Full limit pages := by
  induction left : rest.length using Nat.strongRecOn generalizing before rest with
  | _ n ih =>
    have fetched := answers before rest split
    by_cases more : limit < rest.length
    · have length : (rest.take limit).length = limit := List.length_take_of_le (Nat.le_of_lt more)
      have some : rest.take limit ≠ [] := List.ne_nil_of_length_pos (by omega)
      have last : (before ++ rest.take limit).getLast? = (rest.take limit).getLast? :=
        List.getLast?_append_of_ne_nil _ some
      have split' : all = (before ++ rest.take limit) ++ rest.drop limit := by
        rw [List.append_assoc, List.take_append_drop, split]
      have shorter : (rest.drop limit).length < n := by
        rw [List.length_drop]
        omega
      obtain ⟨pages, walk, whole, full⟩ := ih _ shorter _ _ split' rfl
      refine ⟨rest.take limit :: pages, ?_, ?_, full_cons length full⟩
      · rw [last, List.getLast?_eq_getLast_of_ne_nil some] at walk
        refine .more ?_ walk
        rw [fetched, pageOf, if_pos more, List.getLast?_eq_getLast_of_ne_nil some]
        rfl
      · rw [List.flatten_cons, whole, List.take_append_drop]
    · refine ⟨[rest], .last ?_, by simp, ?_⟩
      · rw [fetched, pageOf, if_neg more, List.take_of_length_le (Nat.le_of_not_lt more)]
      · intro page member
        cases member

end Pages

section Order
variable {Cursor Item Row κ ε : Type} [LinearOrder κ]

/-- `ORDER BY key DESC`. -/
def newest (key : Row → κ) (rows : List Row) : List Row :=
  rows.mergeSort fun first second => decide (key second ≤ key first)

def Descending (key : Row → κ) (rows : List Row) : Prop :=
  rows.Pairwise fun newer older => key older < key newer

theorem newest_perm (key : Row → κ) (rows : List Row) : (newest key rows).Perm rows := List.mergeSort_perm ..

theorem newest_descending {key : Row → κ} {rows : List Row} (distinct : (rows.map key).Nodup) :
    Descending key (newest key rows) := by
  have sorted : (newest key rows).Pairwise fun first second => decide (key second ≤ key first) = true := by
    apply List.pairwise_mergeSort
    · intro a b c first second
      exact decide_eq_true ((of_decide_eq_true second).trans (of_decide_eq_true first))
    · intro a b
      simpa using le_total (key b) (key a)
  have apart : ((newest key rows).map key).Nodup := (((newest_perm key rows).map key).nodup_iff).mpr distinct
  have differ : (newest key rows).Pairwise fun first second => key first ≠ key second :=
    List.pairwise_map.mp apart
  refine (sorted.and differ).imp ?_
  intro first second both
  exact lt_of_le_of_ne (of_decide_eq_true both.1) (Ne.symm both.2)

theorem descending_unique {key : Row → κ} {first second : List Row} (same : first.Perm second)
    (sorted : Descending key first) (sorted' : Descending key second) : first = second :=
  same.eq_of_pairwise (fun _ _ _ _ below above => absurd (below.trans above) (lt_irrefl _)) sorted sorted'

theorem filter_below {key : Row → κ} {before rest : List Row} (sorted : Descending key (before ++ rest)) :
    ((before ++ rest).filter fun row => before.getLast?.all
      fun last => decide (key row < key last)) = rest := by
  induction before using List.reverseRecOn with
  | nil => simp
  | append_singleton before last _ =>
    rw [List.append_assoc, List.singleton_append] at sorted ⊢
    obtain ⟨-, tail, cross⟩ := List.pairwise_append.mp sorted
    have above : ∀ row ∈ before, ¬ key row < key last :=
      fun row member => not_lt.mpr (le_of_lt (cross row member last (by simp)))
    have below := (List.pairwise_cons.mp tail).1
    simp only [List.getLast?_concat, Option.all_some]
    rw [List.filter_append, List.filter_eq_nil_iff.mpr
      fun row member => by simpa using above row member, List.nil_append,
      List.filter_cons_of_neg (by simp), List.filter_eq_self.mpr
        fun row member => decide_eq_true (below row member)]

/-- Following the cursors from the first page visits every matching row once, in strictly descending
order; every page but the last is full. -/
def Complete (fetch : Option Cursor → Except ε (Page Cursor Item)) (item : Row → Item) (key : Row → κ)
    (limit : Nat) (matching : List Row) : Prop :=
  ∃ pages : List (List Row), Walk fetch none (pages.map (List.map item)) ∧ pages.flatten.Perm matching ∧
    Descending key pages.flatten ∧ Full limit pages

-- What is fetched after a row, or at first: what comes first of the rows below it.
theorem complete_of_fetch {limit : Nat} (cursorOf : Row → Cursor) {item : Row → Item}
    {fetch : Option Cursor → Except ε (Page Cursor Item)}
    {key : Row → κ} {matching : List Row} (positive : 0 < limit) (distinct : (matching.map key).Nodup)
    (answers : ∀ bound : Option Row, (∀ row ∈ bound, row ∈ matching) → fetch (bound.map cursorOf) =
      .ok (pageOf limit cursorOf item
        ((newest key (matching.filter fun row => bound.all
          fun last => decide (key row < key last))).take (limit + 1)))) :
    Complete fetch item key limit matching := by
  have sorted := newest_descending distinct
  have perm := newest_perm key matching
  have parts (before rest : List Row) (split : newest key matching = before ++ rest) :
      fetch (before.getLast?.map cursorOf) = .ok (pageOf limit cursorOf item rest) := by
    rw [answers before.getLast?, pageOf_take]
    · let below (row : Row) : Bool := before.getLast?.all fun last => decide (key row < key last)
      have kept : (newest key matching).filter below = rest := by
        rw [split] at sorted ⊢
        exact filter_below sorted
      have among : ((matching.filter below).map key).Nodup := distinct.sublist (List.filter_sublist.map key)
      have same : newest key (matching.filter below) = rest := by
        refine descending_unique ?_ (newest_descending among) (kept ▸ List.Pairwise.filter _ sorted)
        rw [← kept]
        exact (newest_perm key _).trans (perm.filter below).symm
      rw [same]
    · intro row last
      have member : row ∈ before ++ rest := List.mem_append_left _ (List.mem_of_getLast? last)
      exact perm.mem_iff.mp (split ▸ member)
  obtain ⟨pages, walk, whole, full⟩ := walk_rest positive parts [] _ rfl
  refine ⟨pages, walk, ?_, ?_, full⟩
  · rw [whole]
    exact perm
  · rw [whole]
    exact sorted

-- A first page that is not the last has as many rows as the limit.
theorem Complete.first {fetch : Option Cursor → Except ε (Page Cursor Item)} {item : Row → Item}
    {key : Row → κ} {limit : Nat} {matching : List Row} {items : List Item} {next : Cursor}
    (complete : Complete fetch item key limit matching)
    (fetched : fetch none = .ok ⟨items, some next⟩) : items.length = limit := by
  obtain ⟨pages, walk, -, -, full⟩ := complete
  cases pages with
  | nil => exact absurd rfl walk.nonempty
  | cons page later =>
    rw [List.map_cons] at walk
    generalize first : page.map item = shown at walk
    generalize others : later.map (List.map item) = rest at walk
    cases walk with
    | last ended =>
      rw [fetched] at ended
      cases ended
    | more got rest =>
      rw [fetched] at got
      cases got
      have nonempty : later ≠ [] := fun nothing => rest.nonempty (by rw [← others, nothing]; rfl)
      rw [← first, List.length_map]
      exact full page (by rw [List.dropLast_cons_of_ne_nil nonempty]; exact List.mem_cons_self)

end Order

end OpenEmarsys.Keyset
