import FontCodec.Proofs.Jamo.Retag
import Mathlib.Algebra.BigOperators.Ring.List
import Mathlib.Data.Nat.Digits.Lemmas
import Mathlib.Tactic.Ring

/-!
# What packed sequences keep

The keys of a sequence are digits to the base 65536, and none of them is zero. So unpacking gives back the
first four components, and of any other number it reads the lowest groups up to one that is zero.
-/

namespace FontCodec.Jamo

namespace Component

theorem key_normal (g : UInt8) : (normal g).key = 0x300 + g.toNat := by
  have hg : g.toNat < 2 ^ 8 := g.toNat_lt
  exact (Nat.shiftLeft_add_eq_or_of_lt hg 3).symm

theorem key_alternate (g : UInt8) : (alternate g).key = 0x100 + g.toNat := by
  have hg : g.toNat < 2 ^ 8 := g.toNat_lt
  exact (Nat.shiftLeft_add_eq_or_of_lt hg 1).symm

theorem key_range (c : Component) : 0 < c.key ∧ c.key < 65536 := by
  cases c with
  | normal g =>
    have hg := g.toNat_lt
    rw [key_normal]
    omega
  | alternate g =>
    have hg := g.toNat_lt
    rw [key_alternate]
    omega

theorem key_injective : Function.Injective Component.key := by
  have hdiffer : ∀ g g' : UInt8, (normal g).key ≠ (alternate g').key := by
    intro g g'
    have hg' := g'.toNat_lt
    rw [key_normal, key_alternate]
    omega
  intro c d h
  cases c with
  | normal g =>
    cases d with
    | normal g' =>
      rw [key_normal, key_normal, Nat.add_left_cancel_iff, UInt8.toNat_inj] at h
      rw [h]
    | alternate g' => exact absurd h (hdiffer g g')
  | alternate g =>
    cases d with
    | normal g' => exact absurd h.symm (hdiffer g' g)
    | alternate g' =>
      rw [key_alternate, key_alternate, Nat.add_left_cancel_iff, UInt8.toNat_inj] at h
      rw [h]

end Component

section Packing

/-- A key at a free position is added, because the groups do not overlap. -/
theorem or_place {sequence count : Nat} (h : sequence < 65536 ^ count) (key : Nat) :
    sequence ||| place key count = sequence + 65536 ^ count * key := by
  have hbase : (2 : Nat) ^ (16 * count) = 65536 ^ count := by rw [Nat.pow_mul]
  rw [← hbase] at h
  rw [place, Nat.or_comm, ← Nat.shiftLeft_add_eq_or_of_lt h, Nat.shiftLeft_eq, hbase]
  ring

theorem packFrom_eq_ofDigits {count sequence : Nat} (h : sequence < 65536 ^ count)
    (items : List Component) :
    packFrom count sequence items = sequence +
      65536 ^ count * Nat.ofDigits 65536 ((items.take (positions - count)).map Component.key) := by
  induction items generalizing count sequence with
  | nil => simp [packFrom]
  | cons c items ih =>
    by_cases hcount : count < positions
    · obtain ⟨left, hleft⟩ : ∃ left, positions - count = left + 1 :=
        ⟨positions - count - 1, by omega⟩
      have hnext : positions - (count + 1) = left := by omega
      have hkey := c.key_range.2
      have hlt : sequence + 65536 ^ count * c.key < 65536 ^ (count + 1) := by
        calc sequence + 65536 ^ count * c.key < 65536 ^ count + 65536 ^ count * c.key := by omega
          _ = 65536 ^ count * (c.key + 1) := by ring
          _ ≤ 65536 ^ count * 65536 := Nat.mul_le_mul_left _ hkey
          _ = 65536 ^ (count + 1) := (pow_succ _ _).symm
      rw [packFrom, extend, if_pos hcount, or_place h, ih hlt, hleft, hnext, List.take_succ_cons,
        List.map_cons, Nat.ofDigits_cons]
      ring
    · have hpast : sequence < 65536 ^ (count + 1) :=
        h.trans_le (Nat.pow_le_pow_right (by decide) (Nat.le_succ count))
      have hleft : positions - count = 0 := by omega
      have hnext : positions - (count + 1) = 0 := by omega
      rw [packFrom, extend, if_neg hcount, ih hpast, hleft, hnext]
      simp

/-- A packed sequence has the keys of the first components as its digits. -/
theorem pack_eq_ofDigits (items : List Component) :
    pack items = Nat.ofDigits 65536 ((items.take positions).map Component.key) := by
  rw [← packFrom_zero, packFrom_eq_ofDigits (by decide)]
  simp

theorem pack_lt (items : List Component) : pack items < 2 ^ 64 := by
  have hkeys : ∀ k ∈ (items.take positions).map Component.key, k < 65536 := by
    intro k hk
    obtain ⟨c, -, rfl⟩ := List.mem_map.1 hk
    exact c.key_range.2
  have hlength : ((items.take positions).map Component.key).length ≤ 4 := by
    simp [positions]
  rw [pack_eq_ofDigits]
  calc _ < 65536 ^ ((items.take positions).map Component.key).length :=
        Nat.ofDigits_lt_base_pow_length (by decide) hkeys
    _ ≤ 65536 ^ 4 := Nat.pow_le_pow_right (by decide) hlength
    _ = 2 ^ 64 := by decide

end Packing

section Unpacking

theorem unpackFrom_ofDigits {keys : List Nat} (h : ∀ k ∈ keys, 0 < k ∧ k < 65536) {count : Nat}
    (hlength : keys.length ≤ count) :
    unpackFrom count (Nat.ofDigits 65536 keys : Nat) = keys.map (fun k : Nat => (k : Int)) := by
  induction keys generalizing count with
  | nil => cases count <;> simp [unpackFrom]
  | cons k keys ih =>
    obtain ⟨hk, hkeys⟩ := List.forall_mem_cons.1 h
    obtain ⟨left, rfl⟩ : ∃ left, count = left + 1 :=
      Nat.exists_eq_add_one.2 (Nat.zero_lt_of_lt hlength)
    have hgroup : ((Nat.ofDigits 65536 (k :: keys) : Nat) : Int) % 65536 = k := by
      rw [Nat.ofDigits_cons]
      omega
    have hrest : ((Nat.ofDigits 65536 (k :: keys) : Nat) : Int) / 65536 =
        (Nat.ofDigits 65536 keys : Nat) := by
      rw [Nat.ofDigits_cons]
      omega
    have hne : (k : Int) ≠ 0 := by omega
    rw [unpackFrom, hgroup, hrest, if_neg hne, ih hkeys (by simpa using hlength), List.map_cons]

theorem unpack_pack (items : List Component) :
    unpack (pack items) = (items.take positions).map fun c => (c.key : Int) := by
  have hkeys : ∀ k ∈ (items.take positions).map Component.key, 0 < k ∧ k < 65536 := by
    intro k hk
    obtain ⟨c, -, rfl⟩ := List.mem_map.1 hk
    exact c.key_range
  rw [pack_eq_ofDigits, unpack, unpackFrom_ofDigits hkeys (by simp), List.map_map]
  rfl

theorem pack_eq_pack_iff {items others : List Component} :
    pack items = pack others ↔ items.take positions = others.take positions := by
  constructor
  · intro h
    have hkeys := unpack_pack items
    rw [h, unpack_pack] at hkeys
    have hinjective : Function.Injective fun c : Component => (c.key : Int) :=
      Nat.cast_injective.comp Component.key_injective
    exact (List.map_injective_iff.2 hinjective hkeys).symm
  · intro h
    rw [pack_eq_ofDigits, pack_eq_ofDigits, h]

/-- Keys that are the lowest groups of sixteen bits of a number: all of `count`, or those below the first
group that is zero. -/
structure LowestGroups (count : Nat) (n : Int) (keys : List Int) : Prop where
  length_le : keys.length ≤ count
  inRange : ∀ key ∈ keys, 1 ≤ key ∧ key ≤ 0xffff
  sum_eq : (keys.zipIdx.map fun key => key.1 * 65536 ^ key.2).sum = n % 65536 ^ keys.length
  stops : keys.length = count ∨ n / 65536 ^ keys.length % 65536 = 0

theorem sum_zipIdx_cons (key : Int) (keys : List Int) :
    ((key :: keys).zipIdx.map fun key => key.1 * 65536 ^ key.2).sum =
      key + 65536 * (keys.zipIdx.map fun key => key.1 * 65536 ^ key.2).sum := by
  rw [List.zipIdx_cons', List.map_cons, List.sum_cons, List.map_map, ← List.sum_map_mul_left]
  simp only [Function.comp_def, Prod.map_fst, Prod.map_snd, id_eq, pow_succ, pow_zero, mul_one]
  congr 3
  funext k
  ring

theorem lowestGroups_unpackFrom (count : Nat) (n : Int) :
    LowestGroups count n (unpackFrom count n) := by
  induction count generalizing n with
  | zero => exact ⟨Nat.le_refl 0, by simp [unpackFrom], by simp [unpackFrom], .inl rfl⟩
  | succ count ih =>
    rw [unpackFrom]
    split
    · rename_i hzero
      exact ⟨Nat.zero_le _, by simp, by simp, .inr (by simpa using hzero)⟩
    · rename_i hgroup
      have hrest := ih (n / 65536)
      -- the groups above the lowest one are those of the quotient
      have hquotient : n / 65536 ^ ((unpackFrom count (n / 65536)).length + 1) =
          n / 65536 / 65536 ^ (unpackFrom count (n / 65536)).length := by
        rw [Int.ediv_ediv_of_nonneg (by decide), pow_succ']
      refine ⟨Nat.succ_le_succ hrest.length_le, ?_, ?_, ?_⟩
      · refine List.forall_mem_cons.2 ⟨?_, hrest.inRange⟩
        omega
      · rw [sum_zipIdx_cons, hrest.sum_eq, List.length_cons, Int.emod_def n (65536 ^ _), hquotient,
          Int.emod_def (n / 65536), Int.emod_def n 65536]
        ring
      · rw [List.length_cons, hquotient]
        exact hrest.stops.imp_left (congrArg (· + 1))

end Unpacking

/-- The number noted for a span of components keeps exactly its first four ones, so it fits into
sixty-four bits and tells spans apart up to there. Unpacking any number reads its lowest groups. -/
theorem unpack_sequences :
    (∀ payload, sequences payload =
      ((spans payload).filterMap Span.components?).map fun items => (pack items : Int)) ∧
    (∀ items, pack items < 2 ^ 64 ∧
      unpack (pack items) = (items.take 4).map fun c => (c.key : Int)) ∧
    (∀ items others, pack items = pack others ↔ items.take 4 = others.take 4) ∧
    ∀ n, LowestGroups 4 n (unpack n) :=
  ⟨sequences_eq_map_pack, fun items => ⟨pack_lt items, unpack_pack items⟩,
    fun _ _ => pack_eq_pack_iff, lowestGroups_unpackFrom positions⟩

/-- In two's complement no group of a negative number this small is zero. -/
example : unpack (-1) = [0xffff, 0xffff, 0xffff, 0xffff] ∧ unpack (-65536) = [] := by decide

end FontCodec.Jamo
