import ChunkDispatch.Json.Codec
import ChunkDispatch.Proofs.InstantText
import ChunkDispatch.Proofs.JsonText

/-!
# Lawful codecs

A codec is *lawful* if the values read from JSON forms are the *expressible* ones, and each of these
is read back from its own form.  Numbers are expressible if they have the bits there are for them,
and instants if they are readable; lists, sets and records of expressible values are expressible.
-/

namespace ChunkDispatch

/-- The values read from JSON forms are those read back from their own forms. -/
class LawfulCodec (α : Type) [Codec α] where
  Expressible : α → Prop
  decode?_encode {a : α} (ha : Expressible a) : decode? (encode a) = some a
  expressible_of_decode? {j : Json} {a : α} (h : decode? j = some a) : Expressible a
  expressible_of_missing? {a : α} (h : Codec.missing? = some a) : Expressible a := by nofun
  /-- Forms are written and read without loss. -/
  plain_encode (a : α) : (encode a).Plain

export LawfulCodec (Expressible decode?_encode plain_encode)

/-! ### Single values -/

namespace Json

theorem integerIn?_eq_some_iff {low high n : Int} {j : Json} :
  j.integerIn? low high = some n ↔ j = integer n ∧ low ≤ n ∧ n ≤ high
  := by
  cases j with
  | integer m =>
    simp only [integerIn?, Option.ite_none_right_eq_some, Option.some.injEq, integer.injEq]
    constructor
    · rintro ⟨h, rfl⟩
      exact ⟨rfl, h⟩
    · rintro ⟨rfl, h⟩
      exact ⟨h, rfl⟩
  | _ => simp [integerIn?]

end Json

instance : LawfulCodec Int32 where
  Expressible _ := True
  decode?_encode {n} _ := by
    have hint : Json.int32? (.integer n.toInt) = some n.toInt :=
      Json.integerIn?_eq_some_iff.mpr ⟨rfl, n.le_toInt, Int.le_of_lt_add_one n.toInt_lt⟩
    change (Json.int32? (.integer n.toInt)).map Int32.ofInt = some n
    rw [hint, Option.map_some, Int32.ofInt_toInt]
  expressible_of_decode? _ := trivial
  plain_encode _ := .integer _

instance : LawfulCodec Nat where
  Expressible n := n < 2 ^ 64
  decode?_encode {n} hn := by
    have hint : Json.integerIn? 0 18446744073709551615 (.integer n) = some (n : Int) :=
      Json.integerIn?_eq_some_iff.mpr ⟨rfl, Int.natCast_nonneg n, by omega⟩
    change (Json.integerIn? 0 18446744073709551615 (.integer n)).map Int.toNat = some n
    rw [hint, Option.map_some, Int.toNat_natCast]
  expressible_of_decode? h := by
    obtain ⟨i, hi, rfl⟩ := Option.map_eq_some_iff.mp h
    obtain ⟨-, hlow, hhigh⟩ := Json.integerIn?_eq_some_iff.mp hi
    omega
  plain_encode _ := .integer _

instance : LawfulCodec String where
  Expressible _ := True
  decode?_encode _ := rfl
  expressible_of_decode? _ := trivial
  plain_encode _ := .string _

instance : LawfulCodec Instant where
  Expressible := Instant.Readable
  decode?_encode ht := Instant.parse?_render ht
  expressible_of_decode? {j t} h := by
    cases j with
    | string s => exact Instant.readable_of_parse? h
    | _ => cases h
  plain_encode _ := .string _

theorem decode?_of_ne_null {α : Type} [Codec α] {j : Json} (hj : j ≠ .null) :
  (decode? j : Option (Option α)) = (decode? j).map some
  := by
  cases j with
  | null => exact absurd rfl hj
  | _ => rfl

/-- A value which may be missing is lawful if the form of no value is null. -/
@[reducible]
def LawfulCodec.option {α : Type} [Codec α] [LawfulCodec α]
    (hnull : ∀ a : α, encode a ≠ .null) : LawfulCodec (Option α) where
  Expressible o := ∀ a ∈ o, Expressible a
  decode?_encode {o} ho := by
    cases o with
    | none => rfl
    | some a =>
      change decode? (encode a) = some (some a)
      rw [decode?_of_ne_null (hnull a), decode?_encode (ho a rfl), Option.map_some]
  expressible_of_decode? {j o} h := by
    rintro a rfl
    by_cases hj : j = .null
    · rw [hj] at h
      cases h
    · rw [decode?_of_ne_null hj, Option.map_eq_some_iff] at h
      obtain ⟨b, hb, hba⟩ := h
      exact LawfulCodec.expressible_of_decode? (hb.trans hba)
  expressible_of_missing? h := by
    cases h
    exact fun _ ha => nomatch ha
  plain_encode o := by
    cases o with
    | none => exact .null
    | some a => exact plain_encode a

/-- Choices are told apart by their names. -/
@[reducible]
def LawfulCodec.choice {α : Type} {tag : α → String} {ofTag? : String → Option α}
    (htag : ∀ a, ofTag? (tag a) = some a) : @LawfulCodec α (.choice tag ofTag?) :=
  letI : Codec α := .choice tag ofTag?
  { Expressible := fun _ => True
    decode?_encode := fun {a} _ => htag a
    expressible_of_decode? := fun _ => trivial
    plain_encode := fun _ => .string _ }

/-! ### Lists and sets -/

section Lists

variable {α : Type}

instance [Codec α] [LawfulCodec α] : LawfulCodec (List α) where
  Expressible l := ∀ a ∈ l, Expressible a
  decode?_encode {l} hl := by
    change (l.map encode).mapM decode? = some l
    induction l with
    | nil => rfl
    | cons a rest ih =>
      obtain ⟨ha, hrest⟩ := List.forall_mem_cons.mp hl
      rw [List.map_cons, List.mapM_cons, decode?_encode ha, ih hrest]
      rfl
  expressible_of_decode? {j l} h := by
    cases j with
    | array items =>
      change items.mapM decode? = some l at h
      induction items generalizing l with
      | nil =>
        cases h
        exact List.forall_mem_nil _
      | cons item items ih =>
        simp only [List.mapM_cons, Option.bind_eq_bind, Option.bind_eq_some_iff] at h
        obtain ⟨a, ha, rest, hrest, h⟩ := h
        cases h
        exact List.forall_mem_cons.mpr ⟨LawfulCodec.expressible_of_decode? ha, ih hrest⟩
    | _ => cases h
  plain_encode l := by
    apply Json.Plain.array
    intro j hj
    obtain ⟨a, -, rfl⟩ := List.mem_map.mp hj
    exact plain_encode a

variable [LT α] [DecidableLT α] [LE α] [Std.IsLinearOrder α] [Std.LawfulOrderLT α]

theorem SortedSet.ofList_toList (s : SortedSet α) :
  SortedSet.ofList s.toList = s
  := by
  apply SortedSet.ext
  intro a
  rw [SortedSet.mem_ofList, SortedSet.mem_iff]

instance [Codec α] [LawfulCodec α] : LawfulCodec (SortedSet α) where
  Expressible s := ∀ a ∈ s, Expressible a
  decode?_encode {s} hs := by
    have hlist : Expressible s.toList := fun a ha => hs a (SortedSet.mem_iff.mpr ha)
    change (decode? (encode s.toList)).map SortedSet.ofList = some s
    rw [decode?_encode hlist, Option.map_some, SortedSet.ofList_toList]
  expressible_of_decode? {j s} h := by
    obtain ⟨l, hl, rfl⟩ := Option.map_eq_some_iff.mp h
    exact fun a ha => LawfulCodec.expressible_of_decode? hl a (SortedSet.mem_ofList.mp ha)
  plain_encode s := plain_encode s.toList

end Lists

/-! ### Records -/

/-- Fields, one after another, which are lawful. -/
class LawfulFields (α : Type) [Fields α] where
  width : Nat
  Expressible : α → Prop
  map_fst_members {names : List String} (hwidth : names.length = width) (a : α) :
    (Fields.members names a).map Prod.fst = names
  plain_members (names : List String) (a : α) : ∀ m ∈ Fields.members names a, m.2.Plain
  /-- The values are read from any object with the members for them. -/
  read?_eq {names : List String} (hwidth : names.length = width) {a : α} (ha : Expressible a)
    {j : Json} (hj : ∀ m ∈ Fields.members names a, j.member? m.1 = some m.2) :
    Fields.read? names j = some a
  expressible_of_read? {names : List String} {j : Json} {a : α}
    (h : Fields.read? names j = some a) : Expressible a

instance : LawfulFields Unit where
  width := 0
  Expressible _ := True
  map_fst_members hwidth _ := (List.length_eq_zero_iff.mp hwidth).symm
  plain_members _ _ := List.forall_mem_nil _
  read?_eq _ _ _ _ _ := rfl
  expressible_of_read? _ := trivial

instance {α β : Type} [Codec α] [LawfulCodec α] [Fields β] [LawfulFields β] :
    LawfulFields (α × β) where
  width := LawfulFields.width β + 1
  Expressible v := Expressible v.1 ∧ LawfulFields.Expressible v.2
  map_fst_members {names} hwidth v := by
    obtain ⟨name, names, rfl⟩ := List.exists_cons_of_length_eq_add_one hwidth
    change name :: (Fields.members names v.2).map Prod.fst = name :: names
    rw [LawfulFields.map_fst_members (Nat.succ.inj hwidth)]
  plain_members names v := by
    cases names with
    | nil => exact List.forall_mem_nil _
    | cons name names =>
      exact List.forall_mem_cons.mpr ⟨plain_encode v.1, LawfulFields.plain_members names v.2⟩
  read?_eq {names} hwidth v hv j hj := by
    obtain ⟨name, names, rfl⟩ := List.exists_cons_of_length_eq_add_one hwidth
    obtain ⟨hname, hnames⟩ := List.forall_mem_cons.mp hj
    have hfield : j.field? name = some v.1 := by
      rw [Json.field?, hname]
      exact decode?_encode hv.1
    change (j.field? name).bind (fun a => (Fields.read? names j).bind fun b => some (a, b)) = some v
    rw [hfield, LawfulFields.read?_eq (Nat.succ.inj hwidth) hv.2 hnames]
    rfl
  expressible_of_read? {names j v} h := by
    cases names with
    | nil => cases h
    | cons name names =>
      change (j.field? name).bind (fun a => (Fields.read? names j).bind fun b => some (a, b))
        = some v at h
      simp only [Option.bind_eq_some_iff, Option.some.injEq] at h
      obtain ⟨a, ha, b, hb, rfl⟩ := h
      refine ⟨?_, LawfulFields.expressible_of_read? hb⟩
      rw [Json.field?] at ha
      split at ha
      · exact LawfulCodec.expressible_of_missing? ha
      · exact LawfulCodec.expressible_of_decode? ha

/-- The members of an object are found under their names. -/
theorem Json.member?_of_nodup {members : List (String × Json)}
    (hnames : (members.map Prod.fst).Nodup) :
  ∀ m ∈ members, (object members).member? m.1 = some m.2
  := by
  intro m hm
  obtain ⟨before, after, rfl⟩ := List.append_of_mem hm
  apply List.lookup_eq_some_iff.mpr
  refine ⟨before, after, rfl, ?_⟩
  intro m' hm'
  rw [bne_iff_ne]
  intro heq
  exact Json.not_mem_of_nodup hnames (heq ▸ List.mem_map_of_mem hm')

/-- A record of lawful fields is lawful if it is made of them and nothing else. -/
@[reducible]
def LawfulCodec.record {α β : Type} [Fields β] [LawfulFields β] {names : List String}
    {fields : α → β} {make : β → α} (hnames : names.Nodup)
    (hwidth : names.length = LawfulFields.width β) (hmake : ∀ a, make (fields a) = a)
    (hfields : ∀ b, fields (make b) = b) : @LawfulCodec α (.record names fields make) :=
  letI : Codec α := .record names fields make
  have hkeys (a : α) : ((Fields.members names (fields a)).map Prod.fst).Nodup := by
    rwa [LawfulFields.map_fst_members hwidth]
  { Expressible := fun a => LawfulFields.Expressible (fields a)
    decode?_encode := by
      intro a ha
      have hread : Fields.read? names (.object (Fields.members names (fields a)))
          = some (fields a) :=
        LawfulFields.read?_eq hwidth ha (Json.member?_of_nodup (hkeys a))
      change (Fields.read? names (.object (Fields.members names (fields a)))).map make = some a
      rw [hread, Option.map_some, hmake]
    expressible_of_decode? := by
      intro j a h
      obtain ⟨b, hb, rfl⟩ := Option.map_eq_some_iff.mp h
      rw [hfields]
      exact LawfulFields.expressible_of_read? hb
    plain_encode := fun a => .object (hkeys a) (LawfulFields.plain_members names (fields a)) }

/-! ### Total codecs -/

/-- Every value is expressible. -/
class TotalCodec (α : Type) [Codec α] [LawfulCodec α] : Prop where
  expressible (a : α) : LawfulCodec.Expressible a

/-- All values of the fields are expressible. -/
class TotalFields (α : Type) [Fields α] [LawfulFields α] : Prop where
  expressible (a : α) : LawfulFields.Expressible a

instance : TotalCodec Int32 := ⟨fun _ => trivial⟩

instance : TotalCodec String := ⟨fun _ => trivial⟩

instance {α : Type} [Codec α] [LawfulCodec α] [TotalCodec α] : TotalCodec (List α) :=
  ⟨fun _ a _ => TotalCodec.expressible a⟩

instance {α : Type} [Codec α] [LawfulCodec α] [TotalCodec α] [LT α] [DecidableLT α] [LE α]
    [Std.IsLinearOrder α] [Std.LawfulOrderLT α] : TotalCodec (SortedSet α) :=
  ⟨fun _ a _ => TotalCodec.expressible a⟩

instance : TotalFields Unit := ⟨fun _ => trivial⟩

instance {α β : Type} [Codec α] [LawfulCodec α] [TotalCodec α] [Fields β] [LawfulFields β]
    [TotalFields β] : TotalFields (α × β) :=
  ⟨fun v => ⟨TotalCodec.expressible v.1, TotalFields.expressible v.2⟩⟩

end ChunkDispatch
