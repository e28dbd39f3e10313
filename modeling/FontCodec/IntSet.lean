/-!
# Finite sets of integers

A set is the ascending list of its members, so equal sets are equal values and every listing of
a set is sorted.
-/

namespace FontCodec

/-- A finite set of integers. -/
structure IntSet where
  /-- The members in ascending order. -/
  elements : List Int
  ascending : elements.Pairwise (· < ·)
  deriving DecidableEq

namespace IntSet

/-- Puts a number into an ascending list, unless the list already holds it. -/
def insertAscending (n : Int) : List Int → List Int
  | [] => [n]
  | m :: rest =>
    if n < m then n :: m :: rest
    else if n = m then m :: rest
    else m :: insertAscending n rest

theorem mem_insertAscending {n m : Int} {list : List Int} :
    m ∈ insertAscending n list ↔ m = n ∨ m ∈ list := by
  induction list with
  | nil => simp [insertAscending]
  | cons k rest ih =>
    rw [insertAscending]
    split
    · simp
    · split
      · rename_i h
        subst h
        simp only [List.mem_cons]
        grind
      · simp only [List.mem_cons, ih]
        grind

theorem pairwise_insertAscending {n : Int} {list : List Int} (h : list.Pairwise (· < ·)) :
    (insertAscending n list).Pairwise (· < ·) := by
  induction list with
  | nil => simp [insertAscending]
  | cons k rest ih =>
    rw [List.pairwise_cons] at h
    rw [insertAscending]
    split
    · rename_i hn
      refine List.pairwise_cons.2 ⟨?_, List.pairwise_cons.2 h⟩
      intro m hm
      rcases List.mem_cons.1 hm with rfl | hm
      · exact hn
      · exact Int.lt_trans hn (h.1 m hm)
    · split
      · exact List.pairwise_cons.2 h
      · rename_i h1 h2
        refine List.pairwise_cons.2 ⟨?_, ih h.2⟩
        intro m hm
        rcases mem_insertAscending.1 hm with rfl | hm
        · omega
        · exact h.1 m hm

def empty : IntSet := ⟨[], List.Pairwise.nil⟩

instance : Membership Int IntSet := ⟨fun set n => n ∈ set.elements⟩

instance (n : Int) (set : IntSet) : Decidable (n ∈ set) :=
  inferInstanceAs (Decidable (n ∈ set.elements))

def insert (n : Int) (set : IntSet) : IntSet :=
  ⟨insertAscending n set.elements, pairwise_insertAscending set.ascending⟩

def insertAll (set : IntSet) (list : List Int) : IntSet := list.foldl (fun s n => s.insert n) set

def ofList (list : List Int) : IntSet := empty.insertAll list

def isEmpty (set : IntSet) : Bool := set.elements.isEmpty

theorem mem_elements {n : Int} {set : IntSet} : n ∈ set.elements ↔ n ∈ set := Iff.rfl

theorem nodup_elements (set : IntSet) : set.elements.Nodup := set.ascending.imp Int.ne_of_lt

theorem ext {a b : IntSet} (h : ∀ n, n ∈ a ↔ n ∈ b) : a = b := by
  have hperm : a.elements.Perm b.elements :=
    (List.perm_ext_iff_of_nodup a.nodup_elements b.nodup_elements).2 h
  have helements : a.elements = b.elements :=
    hperm.eq_of_pairwise (fun _ _ _ _ hlt hgt => absurd hgt (Int.lt_asymm hlt)) a.ascending b.ascending
  cases a
  cases b
  simpa using helements

@[simp] theorem not_mem_empty (n : Int) : ¬ n ∈ empty := List.not_mem_nil

@[simp] theorem mem_insert {n m : Int} {set : IntSet} : m ∈ set.insert n ↔ m = n ∨ m ∈ set :=
  mem_insertAscending

@[simp] theorem mem_insertAll {m : Int} {set : IntSet} {list : List Int} :
    m ∈ set.insertAll list ↔ m ∈ set ∨ m ∈ list := by
  induction list generalizing set with
  | nil => simp [insertAll]
  | cons n list ih =>
    have := @ih (set.insert n)
    simp only [insertAll, List.foldl_cons] at this ⊢
    rw [this, mem_insert, List.mem_cons]
    grind

@[simp] theorem mem_ofList {m : Int} {list : List Int} : m ∈ ofList list ↔ m ∈ list := by
  simp [ofList]

end IntSet

end FontCodec
