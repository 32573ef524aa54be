import ChunkDispatch.MatchKey
import Mathlib.Algebra.BigOperators.Fin
import Mathlib.Tactic.Ring

/-!
# The hash as a polynomial

The units of a text are its UTF-16 form, and are taken for the coefficients of a polynomial, the
first unit for the leading one.  The *value* of some units is that of their polynomial at 31.  The
hash is kept to 32 bits after every unit; it is the value of all the units, brought into the range
of a signed integer of 32 bits at the end.  So the hash of two texts put together is found from
those of the parts.
-/

namespace ChunkDispatch

open Text

namespace Text

/--
The units are the UTF-16 form of the characters.  A character up to U+FFFF is one unit.  A
character beyond is a pair, which holds the distance from U+10000: the upper ten bits above 0xD800,
the lower ten bits above 0xDC00.
-/
inductive IsUtf16 : List Char → List Nat → Prop
  | nil : IsUtf16 [] []
  | single {c : Char} {cs : List Char} {us : List Nat} (hc : c.toNat < 0x10000)
      (h : IsUtf16 cs us) : IsUtf16 (c :: cs) (c.toNat :: us)
  | pair {c : Char} {cs : List Char} {us : List Nat} {upper lower : Nat} (hupper : upper < 0x400)
      (hlower : lower < 0x400) (hc : c.toNat = 0x10000 + 0x400 * upper + lower)
      (h : IsUtf16 cs us) : IsUtf16 (c :: cs) ((0xD800 + upper) :: (0xDC00 + lower) :: us)

theorem unitsOfChar_of_lt {c : Char} (hc : c.toNat < 0x10000) :
  unitsOfChar c = [c.toNat]
  := if_pos hc

theorem unitsOfChar_of_eq {c : Char} {upper lower : Nat} (hlower : lower < 0x400)
    (hc : c.toNat = 0x10000 + 0x400 * upper + lower) :
  unitsOfChar c = [0xD800 + upper, 0xDC00 + lower]
  := by
  have hdiv : (c.toNat - 0x10000) / 0x400 = upper := by omega
  have hmod : (c.toNat - 0x10000) % 0x400 = lower := by omega
  rw [unitsOfChar, if_neg (by omega), hdiv, hmod]

/-- A text has one UTF-16 form, its units. -/
theorem isUtf16_iff {cs : List Char} {us : List Nat} :
  IsUtf16 cs us ↔ cs.flatMap unitsOfChar = us
  := by
  constructor
  · intro h
    induction h with
    | nil => rfl
    | single hc _ ih => rw [List.flatMap_cons, unitsOfChar_of_lt hc, ih, List.singleton_append]
    | pair _ hlower hc _ ih =>
      rw [List.flatMap_cons, unitsOfChar_of_eq hlower hc, ih]
      rfl
  · rintro rfl
    induction cs with
    | nil => exact .nil
    | cons c cs ih =>
      rw [List.flatMap_cons]
      by_cases hc : c.toNat < 0x10000
      · rw [unitsOfChar_of_lt hc]
        exact .single hc ih
      · have hlast := toNat_lt c
        have hlower : (c.toNat - 0x10000) % 0x400 < 0x400 := Nat.mod_lt _ (by decide)
        have hsplit : c.toNat = 0x10000 + 0x400 * ((c.toNat - 0x10000) / 0x400)
            + (c.toNat - 0x10000) % 0x400 := by omega
        rw [unitsOfChar_of_eq hlower hsplit]
        exact .pair (by omega) hlower hsplit ih

end Text

namespace MatchKey

/-- The value at 31 of the polynomial whose coefficients are the units, the leading one first. -/
def value (us : List Nat) : Nat :=
  ∑ i : Fin us.length, us[i] * 31 ^ (us.length - 1 - i)

theorem value_nil :
  value [] = 0
  := rfl

theorem value_cons (u : Nat) (us : List Nat) :
  value (u :: us) = u * 31 ^ us.length + value us
  := by
  have hexponent : ∀ i : Fin us.length,
      us.length + 1 - 1 - (i.succ : Nat) = us.length - 1 - (i : Nat) := by
    intro i
    rw [Fin.val_succ]
    omega
  simp only [value, List.length_cons, Fin.sum_univ_succ, hexponent]
  rfl

theorem value_append (us vs : List Nat) :
  value (us ++ vs) = value us * 31 ^ vs.length + value vs
  := by
  induction us with
  | nil => rw [List.nil_append, value_nil, Nat.zero_mul, Nat.zero_add]
  | cons u us ih =>
    rw [List.cons_append, value_cons, value_cons, ih, List.length_append]
    ring

/-- Going on from the hash of a value, every unit shifts the value by a factor of 31. -/
theorem foldl_hash (us : List Nat) (m : Nat) :
  us.foldl (fun h u => h * 31 + Int32.ofNat u) (Int32.ofNat m)
    = Int32.ofNat (m * 31 ^ us.length + value us)
  := by
  induction us generalizing m with
  | nil => rw [List.foldl_nil, value_nil, List.length_nil, Nat.pow_zero, Nat.mul_one, Nat.add_zero]
  | cons u us ih =>
    have hstep : Int32.ofNat m * 31 + Int32.ofNat u = Int32.ofNat (m * 31 + u) := by
      rw [Int32.ofNat_add, Int32.ofNat_mul]
      rfl
    rw [List.foldl_cons, hstep, ih, value_cons, List.length_cons]
    congr 1
    ring

theorem hash_eq (key : String) :
  hash key = Int32.ofNat (value (units key))
  := by
  have h := foldl_hash (units key) 0
  rwa [Nat.zero_mul, Nat.zero_add] at h

theorem toInt_hash (key : String) :
  (hash key).toInt = (value (units key) : Int).bmod (2 ^ 32)
  := by
  rw [hash_eq]
  apply Int32.toInt_ofNat'

theorem toInt_hash_append (s t : String) :
  (hash (s ++ t)).toInt
    = ((hash s).toInt * 31 ^ (units t).length + (hash t).toInt).bmod (2 ^ 32)
  := by
  rw [toInt_hash, toInt_hash, toInt_hash, units_append, value_append, Int.add_bmod_bmod,
    ← Int.bmod_add_bmod (x := _ * _), Int.bmod_mul_bmod, Int.bmod_add_bmod]
  norm_cast

/--
The hash of a text is the value of its UTF-16 form, as a residue modulo 2^32 in the range of a
signed integer.  So the hash of a text with another one behind it is the hash of the first, times
31 for each unit of the second, and the hash of the second.
-/
theorem hash_is_residue :
  (∀ (key : String) (us : List Nat), IsUtf16 key.toList us ↔ units key = us) ∧
  (∀ key, (hash key).toInt = (value (units key) : Int).bmod (2 ^ 32)) ∧
  ∀ s t, (hash (s ++ t)).toInt
    = ((hash s).toInt * 31 ^ (units t).length + (hash t).toInt).bmod (2 ^ 32)
  := ⟨fun _ _ => isUtf16_iff, toInt_hash, toInt_hash_append⟩

end MatchKey

end ChunkDispatch
