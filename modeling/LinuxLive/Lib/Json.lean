import Mathlib.Algebra.Ring.Int.Defs
import Mathlib.Algebra.Ring.Nat
import LinuxLive.Lib.Bytes

/-!
# JSON values

The values of a C++ JSON library whose objects are sorted maps, and the typed
accesses a program makes on them.  An access on a value of the wrong type throws;
the number of the exception is kept.
-/

namespace LinuxLive

/--
A JSON value.  Integers are the signed and the unsigned 64-bit numbers together;
a `float` is the double `mantissa * 2 ^ exponent`.  The fields of an object are
listed in the order of their keys.
-/
inductive Json where
  | null
  | bool (b : Bool)
  | int (n : Int)
  | float (mantissa exponent : Int)
  | str (s : Bytes)
  | arr (xs : List Json)
  | obj (fields : List (Bytes × Json))
  deriving Inhabited

/-- The exceptions the accesses below throw, by their number. -/
inductive JsonError where
  | parseError101
  | wrongType302
  | wrongIndex305
  | wrongValue306
  | invalidUtf8316
  /-- No exception: what is undefined may do anything, the end of the process included. -/
  | undefined
  deriving DecidableEq, Repr

namespace Json

/-! ## Predicates on every node -/

mutual

def all (p : Json → Bool) : Json → Bool
  | .arr xs => p (.arr xs) && allItems p xs
  | .obj fs => p (.obj fs) && allFields p fs
  | j => p j

def allItems (p : Json → Bool) : List Json → Bool
  | [] => true
  | x :: xs => all p x && allItems p xs

def allFields (p : Json → Bool) : List (Bytes × Json) → Bool
  | [] => true
  | (_, v) :: fs => all p v && allFields p fs

end

theorem allItems_iff {p : Json → Bool} {xs : List Json} :
    allItems p xs = true ↔ ∀ x ∈ xs, all p x = true := by
  induction xs with
  | nil => simp [allItems]
  | cons x xs ih => simp [allItems, ih]

theorem allFields_iff {p : Json → Bool} {fs : List (Bytes × Json)} :
    allFields p fs = true ↔ ∀ kv ∈ fs, all p kv.2 = true := by
  induction fs with
  | nil => simp [allFields]
  | cons kv fs ih => simp [allFields, ih]

theorem all_arr {p : Json → Bool} {xs : List Json} :
    all p (.arr xs) = true ↔ p (.arr xs) = true ∧ ∀ x ∈ xs, all p x = true := by
  simp [all, allItems_iff]

theorem all_obj {p : Json → Bool} {fs : List (Bytes × Json)} :
    all p (.obj fs) = true ↔ p (.obj fs) = true ∧ ∀ kv ∈ fs, all p kv.2 = true := by
  simp [all, allFields_iff]

theorem induct {P : Json → Prop} (null : P .null) (bool : ∀ b, P (.bool b))
    (int : ∀ n, P (.int n)) (float : ∀ m e, P (.float m e)) (str : ∀ s, P (.str s))
    (arr : ∀ xs, (∀ x ∈ xs, P x) → P (.arr xs))
    (obj : ∀ fs, (∀ kv ∈ fs, P kv.2) → P (.obj fs)) : ∀ j, P j
  | .null => null
  | .bool b => bool b
  | .int n => int n
  | .float m e => float m e
  | .str s => str s
  | .arr xs => arr xs fun x _ => induct null bool int float str arr obj x
  | .obj fs => obj fs fun kv _ => induct null bool int float str arr obj kv.2
termination_by j => sizeOf j
decreasing_by
  · have := List.sizeOf_lt_of_mem ‹x ∈ xs›
    simp only [Json.arr.sizeOf_spec]
    omega
  · have h := List.sizeOf_lt_of_mem ‹kv ∈ fs›
    cases kv
    simp only [Json.obj.sizeOf_spec, Prod.mk.sizeOf_spec] at h ⊢
    omega

/-! ## Objects -/

def insertField (key : Bytes) (value : Json) : List (Bytes × Json) → List (Bytes × Json)
  | [] => [(key, value)]
  | (k, v) :: fs =>
      if key < k then (key, value) :: (k, v) :: fs
      else if key = k then (key, value) :: fs
      else (k, v) :: insertField key value fs

/-- The object that the assignments `j[key] = value` build, in their order. -/
def object (assignments : List (Bytes × Json)) : Json :=
  .obj (assignments.foldl (fun fs kv => insertField kv.1 kv.2 fs) [])

def field? (key : Bytes) : Json → Option Json
  | .obj fs => fs.lookup key
  | _ => none

def isObject : Json → Bool
  | .obj _ => true
  | _ => false

theorem lookup_cons_ite (k key : Bytes) (value : Json) (fs : List (Bytes × Json)) :
    List.lookup k ((key, value) :: fs) = if k = key then some value else fs.lookup k := by
  rw [List.lookup_cons]
  by_cases hk : k = key
  · simp [hk]
  · rw [beq_false_of_ne hk, if_neg hk]

theorem mem_insertField {key : Bytes} {value : Json} {fs : List (Bytes × Json)}
    {kv : Bytes × Json} (h : kv ∈ insertField key value fs) : kv = (key, value) ∨ kv ∈ fs := by
  induction fs with
  | nil => simpa [insertField] using h
  | cons f fs ih =>
      simp only [insertField] at h
      split at h
      · simpa using h
      · split at h
        · rcases List.mem_cons.mp h with h | h
          · exact .inl h
          · exact .inr (List.mem_cons_of_mem _ h)
        · rcases List.mem_cons.mp h with h | h
          · exact .inr (h ▸ List.mem_cons_self)
          · exact (ih h).imp_right (List.mem_cons_of_mem _)

def SortedKeys (fs : List (Bytes × Json)) : Prop := fs.Pairwise fun a b => a.1 < b.1

instance (fs : List (Bytes × Json)) : Decidable (SortedKeys fs) :=
  inferInstanceAs (Decidable (fs.Pairwise _))

theorem sortedKeys_insertField {key : Bytes} {value : Json} {fs : List (Bytes × Json)}
    (h : SortedKeys fs) : SortedKeys (insertField key value fs) := by
  induction fs with
  | nil => simp [insertField, SortedKeys]
  | cons kv fs ih =>
      obtain ⟨k, v⟩ := kv
      obtain ⟨hk, hfs⟩ := List.pairwise_cons.mp h
      simp only [insertField]
      split
      · rename_i hlt
        refine List.pairwise_cons.mpr ⟨?_, h⟩
        intro kv hkv
        rcases List.mem_cons.mp hkv with rfl | hkv
        · exact hlt
        · exact List.lt_trans hlt (hk kv hkv)
      · split
        · rename_i heq
          subst heq
          exact List.pairwise_cons.mpr ⟨hk, hfs⟩
        · rename_i hnlt hne
          have hlt : k < key := by
            rcases Std.le_iff_lt_or_eq.mp (List.not_lt.mp hnlt) with hlt | heq
            · exact hlt
            · exact absurd heq.symm hne
          refine List.pairwise_cons.mpr ⟨?_, ih hfs⟩
          intro kv hkv
          rcases mem_insertField hkv with rfl | hkv
          · exact hlt
          · exact hk kv hkv

theorem insertField_of_forall_lt {key : Bytes} {value : Json} {fs : List (Bytes × Json)}
    (h : ∀ kv ∈ fs, kv.1 < key) : insertField key value fs = fs ++ [(key, value)] := by
  induction fs with
  | nil => rfl
  | cons kv fs ih =>
      have hk : kv.1 < key := h kv List.mem_cons_self
      have hnlt : ¬ key < kv.1 := fun hlt => List.lt_irrefl kv.1 (List.lt_trans hk hlt)
      have hne : key ≠ kv.1 := fun heq => List.lt_irrefl kv.1 (heq ▸ hk)
      have hrec := ih fun f hf => h f (List.mem_cons_of_mem kv hf)
      simp only [insertField, hnlt, hne, if_false, hrec, List.cons_append]

/-! ## Representable values -/

def utf8Node : Json → Bool
  | .str s => LinuxLive.utf8 s
  | .obj fs => fs.all fun kv => LinuxLive.utf8 kv.1
  | _ => true

/-- Every string and every key is well-formed UTF-8. -/
def utf8 (j : Json) : Bool := j.all utf8Node

def canonicalNode : Json → Bool
  | .int n => decide (-2 ^ 63 ≤ n ∧ n < 2 ^ 64)
  | .float m e =>
      decide (m.natAbs < 2 ^ 53 ∧ -1074 ≤ e ∧ m.natAbs * 2 ^ e.toNat < 2 ^ 1024 ∧
        (m % 2 = 1 ∨ (m = 0 ∧ e = 0)))
  | .obj fs => decide (SortedKeys fs)
  | _ => true

/-- The values the library can hold: 64-bit integers, doubles, sorted objects. -/
def canonical (j : Json) : Bool := j.all canonicalNode

section object

variable {p : Json → Bool} {l : List (Bytes × Json)}

theorem forall_mem_foldl_insertField {Q : Bytes × Json → Prop} (fs : List (Bytes × Json))
    (hfs : ∀ kv ∈ fs, Q kv) (hl : ∀ kv ∈ l, Q kv) :
    ∀ kv ∈ l.foldl (fun fs kv => insertField kv.1 kv.2 fs) fs, Q kv := by
  induction l generalizing fs with
  | nil => exact hfs
  | cons a l ih =>
      apply ih
      · intro kv hkv
        rcases mem_insertField hkv with rfl | hkv
        · exact hl _ List.mem_cons_self
        · exact hfs kv hkv
      · exact fun kv hkv => hl kv (List.mem_cons_of_mem a hkv)

theorem sortedKeys_foldl_insertField (fs : List (Bytes × Json)) (h : SortedKeys fs) :
    SortedKeys (l.foldl (fun fs kv => insertField kv.1 kv.2 fs) fs) := by
  induction l generalizing fs with
  | nil => exact h
  | cons a l ih => exact ih _ (sortedKeys_insertField h)

theorem utf8_object (h : ∀ kv ∈ l, LinuxLive.utf8 kv.1 = true ∧ kv.2.utf8 = true) :
    (object l).utf8 = true := by
  have hall := forall_mem_foldl_insertField [] (by simp) h
  refine all_obj.mpr ⟨?_, fun kv hkv => (hall kv hkv).2⟩
  exact List.all_eq_true.mpr fun kv hkv => (hall kv hkv).1

theorem canonical_object (h : ∀ kv ∈ l, kv.2.canonical = true) :
    (object l).canonical = true := by
  have hall := forall_mem_foldl_insertField [] (by simp) h
  refine all_obj.mpr ⟨?_, hall⟩
  exact decide_eq_true (sortedKeys_foldl_insertField [] List.Pairwise.nil)

end object

@[simp] theorem utf8_str (s : Bytes) : (Json.str s).utf8 = LinuxLive.utf8 s := rfl

@[simp] theorem utf8_int (n : Int) : (Json.int n).utf8 = true := rfl

@[simp] theorem utf8_bool (b : Bool) : (Json.bool b).utf8 = true := rfl

@[simp] theorem canonical_str (s : Bytes) : (Json.str s).canonical = true := rfl

@[simp] theorem canonical_bool (b : Bool) : (Json.bool b).canonical = true := rfl

theorem canonical_int {n : Int} (h : -2 ^ 63 ≤ n ∧ n < 2 ^ 64) :
    (Json.int n).canonical = true := decide_eq_true h

theorem canonical_natCast {n : Nat} (h : n < 2 ^ 64) : (Json.int n).canonical = true :=
  canonical_int ⟨by omega, by omega⟩

theorem utf8_arr {xs : List Json} : (Json.arr xs).utf8 = true ↔ ∀ x ∈ xs, x.utf8 = true := by
  simp [utf8, all_arr, utf8Node]

theorem utf8_obj {fs : List (Bytes × Json)} : (Json.obj fs).utf8 = true ↔
    ∀ kv ∈ fs, LinuxLive.utf8 kv.1 = true ∧ kv.2.utf8 = true := by
  simp only [utf8, all_obj, utf8Node, List.all_eq_true, forall_and]

theorem canonical_arr {xs : List Json} :
    (Json.arr xs).canonical = true ↔ ∀ x ∈ xs, x.canonical = true := by
  simp [canonical, all_arr, canonicalNode]

theorem mem_of_lookup {fs : List (Bytes × Json)} {key : Bytes} {v : Json}
    (h : fs.lookup key = some v) : (key, v) ∈ fs := by
  induction fs with
  | nil => simp at h
  | cons kv fs ih =>
      rw [lookup_cons_ite] at h
      split at h
      · rename_i hk
        cases h
        simp [hk]
      · exact List.mem_cons_of_mem _ (ih h)

theorem all_field? {p : Json → Bool} {j v : Json} {key : Bytes} (h : j.all p = true)
    (hv : j.field? key = some v) : v.all p = true := by
  cases j with
  | obj fs => exact (all_obj.mp h).2 _ (mem_of_lookup hv)
  | _ => simp [field?] at hv

/-! ## Typed accesses -/

/-- What a range-based `for` visits: items, field values in key order, the scalar itself. -/
def items : Json → List Json
  | .null => []
  | .arr xs => xs
  | .obj fs => fs.map Prod.snd
  | j => [j]

theorem all_items {p : Json → Bool} {j x : Json} (h : j.all p = true) (hx : x ∈ j.items) :
    x.all p = true := by
  cases j with
  | arr xs => exact (all_arr.mp h).2 x hx
  | obj fs =>
      obtain ⟨kv, hkv, rfl⟩ := List.mem_map.mp hx
      exact (all_obj.mp h).2 kv hkv
  | null => simp [items] at hx
  | _ =>
      simp only [items, List.mem_singleton] at hx
      exact hx ▸ h

def contains (key : Bytes) (j : Json) : Bool := (j.field? key).isSome

def getString : Json → Except JsonError Bytes
  | .str s => .ok s
  | _ => .error .wrongType302

def getBool : Json → Except JsonError Bool
  | .bool b => .ok b
  | _ => .error .wrongType302

/-- The values of a C++ integer type: from `low` to below `high`. -/
structure IntType where
  low : Int
  high : Int

def int32 : IntType := ⟨-2 ^ 31, 2 ^ 31⟩

def uint16 : IntType := ⟨0, 2 ^ 16⟩

def uint64 : IntType := ⟨0, 2 ^ 64⟩

def IntType.holds (t : IntType) (n : Int) : Bool := decide (t.low ≤ n ∧ n < t.high)

def truncated (m e : Int) : Int :=
  if 0 ≤ e then m * 2 ^ e.toNat else Int.tdiv m (2 ^ (-e).toNat)

/-- The integer that a conversion to the type starts from.  Other integers are reduced to the
width of the type; for a double outside of it the conversion is undefined. -/
def number (t : IntType) : Json → Except JsonError Int
  | .int n => .ok n
  | .float m e =>
      if t.holds (truncated m e) then .ok (truncated m e) else .error .undefined
  | _ => .error .wrongType302

/-- Arithmetic types narrower than 64 bits are read from booleans too. -/
def arithmetic (t : IntType) : Json → Except JsonError Int
  | .bool b => .ok b.toNat
  | j => j.number t

/-- `get<int>`: the low 32 bits, signed. -/
def getInt (j : Json) : Except JsonError Int := (j.arithmetic int32).map (·.bmod (2 ^ 32))

/-- `get<uint16_t>`. -/
def getUInt16 (j : Json) : Except JsonError UInt16 := (j.arithmetic uint16).map UInt16.ofInt

/-- `get<uint64_t>`. -/
def getUInt64 (j : Json) : Except JsonError UInt64 := (j.number uint64).map UInt64.ofInt

/-- `get<std::vector<T>>`: an array whose items are all read by `get`. -/
def getVector {α : Type} (get : Json → Except JsonError α) : Json → Except JsonError (List α)
  | .arr xs => xs.mapM get
  | _ => .error .wrongType302

/-- `value(key, default)`: only on objects; a present field has to have the type. -/
def value {α : Type} (get : Json → Except JsonError α) (key : Bytes) (default : α) :
    Json → Except JsonError α
  | .obj fs =>
      match fs.lookup key with
      | some v => get v
      | none => .ok default
  | _ => .error .wrongValue306

/-- `j[key]` on a modifiable value: a missing field becomes null. -/
def index (key : Bytes) : Json → Except JsonError Json
  | .obj fs => .ok ((fs.lookup key).getD .null)
  | .null => .ok .null
  | _ => .error .wrongIndex305

/-- `j[key]` on a constant, where a missing field is undefined. -/
def constIndex (key : Bytes) : Json → Except JsonError Json
  | .obj fs =>
      match fs.lookup key with
      | some v => .ok v
      | none => .error .undefined
  | _ => .error .wrongIndex305

/-! ## What the accesses accept -/

theorem getString_ok_iff {j : Json} {s : Bytes} : j.getString = .ok s ↔ j = .str s := by
  cases j <;> simp [getString]

@[simp] theorem getInt_int (n : Int) : (Json.int n).getInt = .ok (n.bmod (2 ^ 32)) := rfl

theorem map_ok_iff {ε α β : Type} {f : α → β} {x : Except ε α} :
    (∃ b, x.map f = .ok b) ↔ ∃ a, x = .ok a := by
  cases x <;> simp [Except.map]

theorem eq_of_map_ok {ε α β : Type} {f : α → β} {x : Except ε α} {b : β} (h : x.map f = .ok b) :
    ∃ a, x = .ok a ∧ f a = b := by
  cases x with
  | error e => cases h
  | ok a => exact ⟨a, rfl, Except.ok.inj h⟩

theorem value_of_field? {α : Type} {get : Json → Except JsonError α} {key : Bytes} {default : α}
    {j v : Json} (h : j.field? key = some v) : j.value get key default = get v := by
  cases j with
  | obj fs =>
      simp only [field?] at h
      simp [Json.value, h]
  | _ => simp [field?] at h

theorem constIndex_of_field? {j v : Json} {key : Bytes} (h : j.field? key = some v) :
    j.constIndex key = .ok v := by
  cases j with
  | obj fs =>
      have hlookup : fs.lookup key = some v := h
      simp only [constIndex, hlookup]
  | _ => simp [field?] at h

theorem index_of_field? {j v : Json} {key : Bytes} (h : j.field? key = some v) :
    j.index key = .ok v := by
  cases j with
  | obj fs =>
      have hlookup : fs.lookup key = some v := h
      simp only [index, hlookup, Option.getD_some]
  | _ => simp [field?] at h

theorem ofInt_toNat_uint64 (n : UInt64) : UInt64.ofInt (n.toNat : Int) = n := by
  have hlt := n.toNat_lt
  have hmod : ((n.toNat : Int) % 2 ^ 64).toNat = n.toNat := by omega
  rw [UInt64.ofInt, hmod, UInt64.ofNat_toNat]

theorem ofInt_toNat_uint16 (n : UInt16) : UInt16.ofInt (n.toNat : Int) = n := by
  have hlt := n.toNat_lt
  have hmod : ((n.toNat : Int) % 2 ^ 16).toNat = n.toNat := by omega
  rw [UInt16.ofInt, hmod, UInt16.ofNat_toNat]

@[simp] theorem getUInt64_int_toNat (n : UInt64) : (Json.int n.toNat).getUInt64 = .ok n :=
  congrArg Except.ok (ofInt_toNat_uint64 n)

@[simp] theorem getUInt16_int_toNat (n : UInt16) : (Json.int n.toNat).getUInt16 = .ok n :=
  congrArg Except.ok (ofInt_toNat_uint16 n)

theorem int32_range (n : Int32) : -2 ^ 31 ≤ n.toInt ∧ n.toInt < 2 ^ 31 :=
  ⟨n.le_toInt, n.toInt_lt⟩

theorem getInt_int32 (n : Int32) : (Json.int n.toInt).getInt = .ok n.toInt := by
  have hrange := int32_range n
  rw [getInt_int, Int.bmod_eq_of_le (by omega) (by omega)]

theorem canonical_int32 (n : Int32) : (Json.int n.toInt).canonical = true := by
  have hrange := int32_range n
  exact canonical_int (by omega)

/-- The field was there, unless `j[key]` made it. -/
theorem field?_of_index {j v : Json} {key : Bytes} (h : j.index key = .ok v) (hv : v ≠ .null) :
    j.field? key = some v := by
  cases j with
  | obj fs =>
      cases hlookup : fs.lookup key with
      | none =>
          rw [index, hlookup] at h
          cases h
          exact absurd rfl hv
      | some w =>
          rw [index, hlookup] at h
          cases h
          exact hlookup
  | null =>
      cases h
      exact absurd rfl hv
  | _ => simp [index] at h

/-! ## Numbers by their value -/

/-- The number is the integer, not only cut to it. -/
def IsInteger : Json → Int → Prop
  | .int k, n => k = n
  | .float m e, n => if 0 ≤ e then m * 2 ^ e.toNat = n else m = n * 2 ^ (-e).toNat
  | _, _ => False

/-- Equal, or two ways to write one integer. -/
def SameValue (j j' : Json) : Prop := j = j' ∨ ∃ n, j.IsInteger n ∧ j'.IsInteger n

section integers

variable {j : Json} {n : Int}

theorem truncated_of_isInteger {m e : Int} (h : (Json.float m e).IsInteger n) :
    truncated m e = n := by
  by_cases he : 0 ≤ e
  · simp only [IsInteger, if_pos he] at h
    rw [truncated, if_pos he, h]
  · have hpow : (0 : Int) < 2 ^ (-e).toNat := Int.pow_pos (by decide)
    simp only [IsInteger, if_neg he] at h
    rw [truncated, if_neg he, h, Int.mul_tdiv_cancel n (Int.ne_of_gt hpow)]

/-- What is read from an integer is this one, whatever the type. -/
theorem eq_of_number {t : IntType} {k : Int} (h : j.IsInteger n) (hk : j.number t = .ok k) :
    k = n := by
  cases j with
  | int i =>
      cases h
      exact (Except.ok.inj hk).symm
  | float m e =>
      rw [number, truncated_of_isInteger h] at hk
      split at hk
      · exact (Except.ok.inj hk).symm
      · cases hk
  | _ => cases h

theorem number_of_isInteger {t : IntType} (h : j.IsInteger n) (hn : t.holds n = true) :
    j.number t = .ok n := by
  cases j with
  | int i => exact congrArg Except.ok h
  | float m e => rw [number, truncated_of_isInteger h, hn, if_pos rfl]
  | _ => cases h

theorem arithmetic_of_isInteger (t : IntType) (h : j.IsInteger n) :
    j.arithmetic t = j.number t := by
  cases j with
  | bool b => cases h
  | _ => rfl

theorem sameValue_int_iff : j.SameValue (.int n) ↔ j.IsInteger n := by
  constructor
  · intro h
    rcases h with h | h
    · rw [h]
      exact rfl
    · obtain ⟨k, hj, hk⟩ := h
      have heq : n = k := hk
      exact heq ▸ hj
  · exact fun h => .inr ⟨n, h, rfl⟩

/-- A number that is read as 64 bits is the number itself exactly if it fits. -/
theorem isInteger_getUInt64_iff {x : UInt64} (h : j.getUInt64 = .ok x) :
    j.IsInteger x.toNat ↔ ∃ n : Int, j.IsInteger n ∧ 0 ≤ n ∧ n < 2 ^ 64 := by
  constructor
  · intro hx
    have hlt := x.toNat_lt
    exact ⟨x.toNat, hx, by omega, by omega⟩
  · intro hfits
    obtain ⟨n, hn, hlow, hhigh⟩ := hfits
    obtain ⟨i, hi, hx⟩ := eq_of_map_ok h
    obtain rfl := eq_of_number hn hi
    obtain ⟨k, rfl⟩ := Int.eq_ofNat_of_zero_le hlow
    have hk : (UInt64.ofNat k).toNat = k := UInt64.toNat_ofNat_of_lt' (show k < 2 ^ 64 by omega)
    rw [← hx, ← hk, ofInt_toNat_uint64, hk]
    exact hn

theorem isInteger_getUInt16_iff {x : UInt16} (h : j.getUInt16 = .ok x) :
    j.IsInteger x.toNat ↔ ∃ n : Int, j.IsInteger n ∧ 0 ≤ n ∧ n < 2 ^ 16 := by
  constructor
  · intro hx
    have hlt := x.toNat_lt
    exact ⟨x.toNat, hx, by omega, by omega⟩
  · intro hfits
    obtain ⟨n, hn, hlow, hhigh⟩ := hfits
    obtain ⟨i, hi, hx⟩ := eq_of_map_ok h
    rw [arithmetic_of_isInteger uint16 hn] at hi
    obtain rfl := eq_of_number hn hi
    obtain ⟨k, rfl⟩ := Int.eq_ofNat_of_zero_le hlow
    have hk : (UInt16.ofNat k).toNat = k := UInt16.toNat_ofNat_of_lt' (show k < 2 ^ 16 by omega)
    rw [← hx, ← hk, ofInt_toNat_uint16, hk]
    exact hn

end integers

/-- A string read with a default is the default or was a string of the value. -/
theorem utf8_value {j : Json} {key s default : Bytes} (hj : j.utf8 = true)
    (hd : LinuxLive.utf8 default = true) (h : j.value getString key default = .ok s) :
    LinuxLive.utf8 s = true := by
  cases j with
  | obj fs =>
      simp only [Json.value] at h
      split at h
      · rename_i v hv
        have hu : v.all utf8Node = true := all_field? hj (show field? key (.obj fs) = some v from hv)
        rw [getString_ok_iff.mp h] at hu
        exact hu
      · cases h
        exact hd
  | _ => simp [Json.value] at h

theorem utf8_constIndex {j v : Json} {key s : Bytes} (hj : j.utf8 = true)
    (hv : j.constIndex key = .ok v) (hs : v.getString = .ok s) : LinuxLive.utf8 s = true := by
  cases j with
  | obj fs =>
      simp only [constIndex] at hv
      split at hv
      · rename_i w hw
        cases hv
        have hu : v.all utf8Node = true := all_field? hj (show field? key (.obj fs) = some v from hw)
        rw [getString_ok_iff.mp hs] at hu
        exact hu
      · cases hv
  | _ => simp [constIndex] at hv

theorem utf8_index {j v : Json} {key s : Bytes} (hj : j.utf8 = true)
    (hv : j.index key = .ok v) (hs : v.getString = .ok s) : LinuxLive.utf8 s = true := by
  cases j with
  | obj fs =>
      cases hlookup : fs.lookup key with
      | none =>
          rw [index, hlookup] at hv
          cases hv
          cases hs
      | some w =>
          have hw : (Json.obj fs).field? key = some w := hlookup
          rw [index_of_field? hw] at hv
          cases hv
          exact utf8_constIndex hj (constIndex_of_field? hw) hs
  | null =>
      cases hv
      cases hs
  | _ => simp [index] at hv

end Json

/-! ## Fallible reads -/

theorem bind_eq_ok {ε α β : Type} {x : Except ε α} {f : α → Except ε β} {b : β} :
    (x >>= f) = .ok b ↔ ∃ a, x = .ok a ∧ f a = .ok b := by
  cases x <;> simp [bind, Except.bind]

theorem bind_ne_error {ε α β : Type} {x : Except ε α} {f : α → Except ε β} {e : ε}
    (hx : x ≠ .error e) (hf : ∀ a, x = .ok a → f a ≠ .error e) : (x >>= f) ≠ .error e := by
  cases x with
  | error e' => simpa [bind, Except.bind] using hx
  | ok a => exact hf a rfl

theorem mapM_map_ok {ε α β : Type} {g : β → Except ε α} {f : α → β}
    (h : ∀ a, g (f a) = .ok a) (l : List α) : (l.map f).mapM g = .ok l := by
  induction l with
  | nil => rfl
  | cons a l ih =>
      rw [List.map_cons, List.mapM_cons, h, ih]
      rfl

theorem mapM_ok_iff {ε α β : Type} {get : α → Except ε β} {l : List α} :
    (∃ bs, l.mapM get = .ok bs) ↔ ∀ a ∈ l, ∃ b, get a = .ok b := by
  induction l with
  | nil => simp [pure, Except.pure]
  | cons a l ih =>
      rw [List.mapM_cons]
      cases ha : get a with
      | error e => simp [ha, bind, Except.bind]
      | ok b =>
          simp only [bind, Except.bind, List.mem_cons, forall_eq_or_imp, ha, Except.ok.injEq,
            exists_eq', true_and]
          rw [← ih]
          cases List.mapM get l <;> simp [pure, Except.pure]

theorem forall_of_mapM {ε α β : Type} {get : α → Except ε β} {P : β → Prop} {l : List α}
    {bs : List β} (h : l.mapM get = .ok bs) (hP : ∀ a ∈ l, ∀ b, get a = .ok b → P b) :
    ∀ b ∈ bs, P b := by
  induction l generalizing bs with
  | nil =>
      cases h
      simp
  | cons a l ih =>
      rw [List.mapM_cons] at h
      cases ha : get a with
      | error e => simp [ha, bind, Except.bind] at h
      | ok b =>
          cases hl : l.mapM get with
          | error e => simp [ha, hl, bind, Except.bind] at h
          | ok bs' =>
              simp only [ha, hl, bind, Except.bind, pure, Except.pure, Except.ok.injEq] at h
              subst h
              have hb := hP a List.mem_cons_self b ha
              have hbs := ih hl fun a ha => hP a (List.mem_cons_of_mem _ ha)
              simpa using ⟨hb, hbs⟩

end LinuxLive
