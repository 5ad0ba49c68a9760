import Mathlib.Data.List.Induction
import Mathlib.Tactic.Ring
import LinuxLive.Lib.Bytes

/-!
# Base64

Numbers as bits of a fixed width, bit strings in groups, and the standard encoding of bytes
in groups of six bits with its decoding.
-/

namespace LinuxLive.Base64

/-! ## Bits -/

/-- The lowest `w` bits of a number, the highest one first. -/
def bits : Nat → Nat → List Bool
  | 0, _ => []
  | w + 1, n => n.testBit w :: bits w n

def ofBits (bs : List Bool) : Nat := bs.foldl (fun n b => 2 * n + b.toNat) 0

section bits

variable {u v w n : Nat}

@[simp] theorem length_bits (w n : Nat) : (bits w n).length = w := by
  induction w with
  | zero => rfl
  | succ w ih => rw [bits, List.length_cons, ih]

theorem bits_add (u v n : Nat) : bits (u + v) n = bits u (n / 2 ^ v) ++ bits v n := by
  induction u with
  | zero => simp [bits]
  | succ u ih =>
      rw [Nat.succ_add, bits, ih, bits, List.cons_append, Nat.testBit_div_two_pow]

theorem bits_congr {m n : Nat} (h : m % 2 ^ w = n % 2 ^ w) : bits w m = bits w n := by
  induction w with
  | zero => rfl
  | succ w ih =>
      have hlow : m % 2 ^ w = n % 2 ^ w := by
        have hdvd : 2 ^ w ∣ 2 ^ (w + 1) := Nat.pow_dvd_pow 2 (Nat.le_succ w)
        rw [← Nat.mod_mod_of_dvd m hdvd, h, Nat.mod_mod_of_dvd n hdvd]
      have hbit : m.testBit w = n.testBit w := by
        have htest := congrArg (fun k => k.testBit w) h
        simpa [Nat.testBit_mod_two_pow] using htest
      rw [bits, bits, ih hlow, hbit]

theorem ofBits_concat (bs : List Bool) (b : Bool) :
    ofBits (bs ++ [b]) = 2 * ofBits bs + b.toNat := by
  simp [ofBits]

theorem ofBits_append (bs cs : List Bool) :
    ofBits (bs ++ cs) = ofBits bs * 2 ^ cs.length + ofBits cs := by
  induction cs using List.reverseRecOn with
  | nil => simp [ofBits]
  | append_singleton cs c ih =>
      rw [← List.append_assoc, ofBits_concat, ofBits_concat, ih, List.length_append,
        List.length_singleton, Nat.pow_succ]
      ring

theorem ofBits_bits (w n : Nat) : ofBits (bits w n) = n % 2 ^ w := by
  induction w with
  | zero => simp [bits, ofBits, Nat.mod_one]
  | succ w ih =>
      have hsplit : bits (w + 1) n = [n.testBit w] ++ bits w n := rfl
      have hfirst : ofBits [n.testBit w] = (n.testBit w).toNat := by simp [ofBits]
      rw [hsplit, ofBits_append, ih, length_bits, hfirst, Nat.toNat_testBit, Nat.mod_pow_succ]
      ring

theorem bits_ofBits (bs : List Bool) : bits bs.length (ofBits bs) = bs := by
  induction bs using List.reverseRecOn with
  | nil => rfl
  | append_singleton bs b ih =>
      have hdiv : (2 * ofBits bs + b.toNat) / 2 = ofBits bs := by
        have hb := Bool.toNat_lt b
        omega
      have hbit : bits 1 (2 * ofBits bs + b.toNat) = [b] := by
        cases b with
        | false => simp [bits]
        | true => simp [bits]
      rw [ofBits_concat, List.length_append, List.length_singleton, bits_add, Nat.pow_one, hdiv, ih,
        hbit]

theorem ofBits_lt (bs : List Bool) : ofBits bs < 2 ^ bs.length := by
  have hlt := Nat.mod_lt (ofBits bs) (Nat.two_pow_pos bs.length)
  rw [← ofBits_bits, bits_ofBits] at hlt
  exact hlt

end bits

/-! ## Groups of bits -/

/-- The numbers that groups of `w + 1` bits stand for; zeros fill the last group. -/
def groups (w : Nat) (bs : List Bool) : List Nat :=
  if bs = [] then []
  else
    ofBits ((bs ++ List.replicate w false).take (w + 1)) :: groups w (bs.drop (w + 1))
termination_by bs.length
decreasing_by
  have hpos := List.length_pos_of_ne_nil ‹_›
  rw [List.length_drop]
  omega

section groups

variable {w : Nat} {bs cs : List Bool}

theorem groups_append (h : bs.length = w + 1) (cs : List Bool) :
    groups w (bs ++ cs) = ofBits bs :: groups w cs := by
  have hne : bs ++ cs ≠ [] := by
    intro hnil
    rw [(List.append_eq_nil_iff.mp hnil).1, List.length_nil] at h
    omega
  rw [groups, if_neg hne, ← h, List.append_assoc, List.take_left, List.drop_left]

theorem groups_short (hne : bs ≠ []) (h : bs.length ≤ w + 1) :
    groups w bs = [ofBits (bs ++ List.replicate (w + 1 - bs.length) false)] := by
  have hpos := List.length_pos_of_ne_nil hne
  have htake : (bs ++ List.replicate w false).take (w + 1) =
      bs ++ List.replicate (w + 1 - bs.length) false := by
    rw [List.take_append, List.take_of_length_le h, List.take_replicate]
    congr 2
    omega
  rw [groups, if_neg hne, htake, List.drop_of_length_le h, groups, if_pos rfl]

theorem flatMap_groups (w : Nat) (bs : List Bool) : ∃ zeros, zeros ≤ w ∧
    (groups w bs).flatMap (bits (w + 1)) = bs ++ List.replicate zeros false ∧
    (groups w bs).length * (w + 1) = bs.length + zeros := by
  induction bs using groups.induct w with
  | case1 => exact ⟨0, Nat.zero_le w, by simp [groups], by simp [groups]⟩
  | case2 bs hne ih =>
      by_cases hshort : bs.length ≤ w + 1
      · have hpos := List.length_pos_of_ne_nil hne
        have hlen : (bs ++ List.replicate (w + 1 - bs.length) false).length = w + 1 := by
          rw [List.length_append, List.length_replicate]
          omega
        have hbits := bits_ofBits (bs ++ List.replicate (w + 1 - bs.length) false)
        rw [hlen] at hbits
        refine ⟨w + 1 - bs.length, by omega, ?_, ?_⟩
        · rw [groups_short hne hshort, List.flatMap_singleton, hbits]
        · rw [groups_short hne hshort, List.length_singleton]
          omega
      · have hlen : (bs.take (w + 1)).length = w + 1 := by
          rw [List.length_take]
          omega
        have hgroup := groups_append hlen (bs.drop (w + 1))
        have hbits := bits_ofBits (bs.take (w + 1))
        rw [hlen] at hbits
        rw [List.take_append_drop] at hgroup
        obtain ⟨zeros, hzeros, hflat, hcount⟩ := ih
        refine ⟨zeros, hzeros, ?_, ?_⟩
        · rw [hgroup, List.flatMap_cons, hbits, hflat, ← List.append_assoc,
            List.take_append_drop]
        · rw [List.length_drop] at hcount
          rw [hgroup, List.length_cons, Nat.succ_mul, hcount]
          omega

theorem groups_lt {n : Nat} (h : n ∈ groups w bs) : n < 2 ^ (w + 1) := by
  induction bs using groups.induct w with
  | case1 => simp [groups] at h
  | case2 bs hne ih =>
      rw [groups, if_neg hne, List.mem_cons] at h
      rcases h with rfl | h
      · refine Nat.lt_of_lt_of_le (ofBits_lt _) (Nat.pow_le_pow_right Nat.two_pos ?_)
        rw [List.length_take]
        omega
      · exact ih h

/-- Numbers of the width are read back from their bits. -/
theorem groups_flatMap (ns : List Nat) (h : ∀ n ∈ ns, n < 2 ^ (w + 1)) :
    groups w (ns.flatMap (bits (w + 1))) = ns := by
  induction ns with
  | nil => simp [groups]
  | cons n ns ih =>
      obtain ⟨hn, hns⟩ := List.forall_mem_cons.mp h
      rw [List.flatMap_cons, groups_append (length_bits _ _), ih hns, ofBits_bits,
        Nat.mod_eq_of_lt hn]

end groups

/-! ## The encoding -/

def alphabet : Bytes := lit "ABCDEFGHIJKLMNOPQRSTUVWXYZabcdefghijklmnopqrstuvwxyz0123456789+/"

def sextetChar (n : Nat) : UInt8 := alphabet.getD n 0

def sextet? (c : UInt8) : Option Nat := alphabet.idxOf? c

def byteBits (data : Bytes) : List Bool := data.flatMap fun b => bits 8 b.toNat

/-- A character for every six bits, and `=` up to a multiple of four. -/
def encode (data : Bytes) : Bytes :=
  (groups 5 (byteBits data)).map sextetChar ++ List.replicate ((3 - data.length % 3) % 3) 61

/-- The bytes that the bits of the characters make; what is left of the last character has
to be zeros. -/
def decodeBody (text : Bytes) : Option Bytes :=
  (text.mapM sextet?).bind fun sextets =>
    let bs := sextets.flatMap (bits 6)
    let whole := 8 * (bs.length / 8)
    if ∀ b ∈ bs.drop whole, b = false then some ((groups 7 (bs.take whole)).map UInt8.ofNat)
    else none

/-- The length is a multiple of four, and at most two `=` stand at the end. -/
def decode? (text : Bytes) : Option Bytes :=
  let padding := text.dropWhile (· != 61)
  if text.length % 4 = 0 ∧ padding.length ≤ 2 ∧ padding.all (· == 61) then
    decodeBody (text.takeWhile (· != 61))
  else none

theorem sextet?_sextetChar : ∀ n < 64, sextet? (sextetChar n) = some n := by decide

theorem sextetChar_ne_pad : ∀ n < 64, sextetChar n ≠ 61 := by decide

section encoding

variable {data : Bytes}

theorem length_byteBits (data : Bytes) : (byteBits data).length = 8 * data.length := by
  induction data with
  | nil => rfl
  | cons b data ih =>
      rw [byteBits, List.flatMap_cons, List.length_append, length_bits, ← byteBits, ih,
        List.length_cons]
      omega

theorem groups_byteBits (data : Bytes) : (groups 7 (byteBits data)).map UInt8.ofNat = data := by
  have hbytes : byteBits data = (data.map UInt8.toNat).flatMap (bits 8) := by
    rw [byteBits, List.flatMap_map]
  have hlt : ∀ n ∈ data.map UInt8.toNat, n < 2 ^ 8 := by
    intro n hn
    obtain ⟨b, _, rfl⟩ := List.mem_map.mp hn
    exact b.toNat_lt
  rw [hbytes, groups_flatMap _ hlt, List.map_map]
  exact (List.map_congr_left fun b _ => UInt8.ofNat_toNat).trans (List.map_id data)

theorem length_groups_byteBits (data : Bytes) :
    (groups 5 (byteBits data)).length = (8 * data.length + 5) / 6 := by
  obtain ⟨zeros, hzeros, _, hcount⟩ := flatMap_groups 5 (byteBits data)
  rw [length_byteBits] at hcount
  omega

theorem length_encode (data : Bytes) : (encode data).length = 4 * ((data.length + 2) / 3) := by
  rw [encode, List.length_append, List.length_map, List.length_replicate, length_groups_byteBits]
  omega

/-- Characters of the alphabet, and nothing but `=` behind them. -/
theorem encode_eq (data : Bytes) : ∃ (sextets : List Nat) (pad : Nat), encode data =
    sextets.map sextetChar ++ List.replicate pad 61 ∧ (∀ n ∈ sextets, n < 64) ∧ pad ≤ 2 :=
  ⟨_, _, rfl, fun _ hn => groups_lt hn, by omega⟩

theorem mapM_sextet? {sextets : List Nat} (h : ∀ n ∈ sextets, n < 64) :
    (sextets.map sextetChar).mapM sextet? = some sextets := by
  induction sextets with
  | nil => rfl
  | cons n sextets ih =>
      obtain ⟨hn, hsextets⟩ := List.forall_mem_cons.mp h
      rw [List.map_cons, List.mapM_cons, sextet?_sextetChar n hn, ih hsextets]
      rfl

theorem decodeBody_encode (data : Bytes) :
    decodeBody ((groups 5 (byteBits data)).map sextetChar) = some data := by
  obtain ⟨zeros, hzeros, hbits, _⟩ := flatMap_groups 5 (byteBits data)
  have hlength := length_byteBits data
  have hwhole : 8 * ((byteBits data ++ List.replicate zeros false).length / 8) =
      (byteBits data).length := by
    rw [List.length_append, List.length_replicate, hlength]
    omega
  have hrest : ∀ b ∈ List.replicate zeros false, b = false :=
    fun b hb => List.eq_of_mem_replicate hb
  unfold decodeBody
  rw [mapM_sextet? fun n hn => groups_lt hn, Option.bind_some, hbits]
  dsimp only
  rw [hwhole, List.take_left, List.drop_left, if_pos hrest, groups_byteBits]

theorem decode?_encode (data : Bytes) : decode? (encode data) = some data := by
  have hbody : ∀ c ∈ (groups 5 (byteBits data)).map sextetChar, (c != 61) = true := by
    intro c hc
    obtain ⟨n, hn, rfl⟩ := List.mem_map.mp hc
    exact bne_iff_ne.mpr (sextetChar_ne_pad n (groups_lt hn))
  have hpadding : ∀ k, (List.replicate k (61 : UInt8)).takeWhile (· != 61) = [] ∧
      (List.replicate k (61 : UInt8)).dropWhile (· != 61) = List.replicate k 61 := by
    intro k
    cases k with
    | zero => exact ⟨rfl, rfl⟩
    | succ k => exact ⟨rfl, rfl⟩
  have hlength : (encode data).length % 4 = 0 := by
    rw [length_encode]
    omega
  have hpad : (3 - data.length % 3) % 3 ≤ 2 := by omega
  unfold decode?
  rw [hlength, encode, List.takeWhile_append_of_pos hbody, List.dropWhile_append_of_pos hbody,
    (hpadding _).1, (hpadding _).2, List.append_nil, decodeBody_encode]
  dsimp only
  rw [List.length_replicate]
  have hall : (List.replicate ((3 - data.length % 3) % 3) (61 : UInt8)).all (· == 61) = true :=
    List.all_eq_true.mpr fun c hc => beq_iff_eq.mpr (List.eq_of_mem_replicate hc)
  exact if_pos ⟨rfl, hpad, hall⟩

end encoding

/-! ## Three bytes at a time -/

section rounds

/-- The `k`-th six bits of a number of 24 bits, from the right. -/
def sextetAt (n k : Nat) : UInt8 := sextetChar (n / 2 ^ (6 * k) % 64)

theorem bits_byte_append (m : Nat) (b : UInt8) (w : Nat) :
    bits w m ++ bits 8 b.toNat = bits (w + 8) (m * 256 + b.toNat) := by
  have hb := b.toNat_lt
  have hdiv : (m * 256 + b.toNat) / 2 ^ 8 = m := by omega
  have hmod : (m * 256 + b.toNat) % 2 ^ 8 = b.toNat % 2 ^ 8 := by omega
  rw [bits_add, hdiv, bits_congr hmod]

theorem ofBits_replicate (n : Nat) : ofBits (List.replicate n false) = 0 := by
  induction n with
  | zero => rfl
  | succ n ih => rw [List.replicate_succ', ofBits_concat, ih, Bool.toNat_false]

theorem groups_nil (w : Nat) : groups w [] = [] := by rw [groups, if_pos rfl]

theorem groups_bits (w n : Nat) (bs : List Bool) :
    groups 5 (bits (6 + w) n ++ bs) = n / 2 ^ w % 64 :: groups 5 (bits w n ++ bs) := by
  rw [bits_add, List.append_assoc, groups_append (length_bits _ _), ofBits_bits]
  rfl

/-- Fewer than six bits are filled with zeros. -/
theorem groups_bits_short {w : Nat} (n : Nat) (hpos : 0 < w) (hle : w ≤ 6) :
    groups 5 (bits w n) = [n % 2 ^ w * 2 ^ (6 - w)] := by
  have hne : bits w n ≠ [] := by
    intro hnil
    rw [← length_bits w n, hnil, List.length_nil] at hpos
    omega
  have hlen : (bits w n).length ≤ 5 + 1 := by
    rw [length_bits]
    exact hle
  rw [groups_short hne hlen, ofBits_append, ofBits_bits, List.length_replicate, ofBits_replicate,
    length_bits, Nat.add_zero]

theorem encode_nil : encode [] = [] := by rw [encode, byteBits, List.flatMap_nil, groups_nil]; rfl

theorem encode_three (a b c : UInt8) (rest : Bytes) :
    encode (a :: b :: c :: rest) =
      [sextetAt (a.toNat * 65536 + b.toNat * 256 + c.toNat) 3,
        sextetAt (a.toNat * 65536 + b.toNat * 256 + c.toNat) 2,
        sextetAt (a.toNat * 65536 + b.toNat * 256 + c.toNat) 1,
        sextetAt (a.toNat * 65536 + b.toNat * 256 + c.toNat) 0] ++ encode rest := by
  have hnumber : (a.toNat * 256 + b.toNat) * 256 + c.toNat =
      a.toNat * 65536 + b.toNat * 256 + c.toNat := by omega
  have hbits : byteBits (a :: b :: c :: rest) =
      bits (6 + (6 + (6 + (6 + 0)))) (a.toNat * 65536 + b.toNat * 256 + c.toNat) ++
        byteBits rest := by
    simp only [byteBits, List.flatMap_cons]
    rw [← List.append_assoc, ← List.append_assoc, bits_byte_append, bits_byte_append, hnumber]
  have hpad : (3 - (a :: b :: c :: rest).length % 3) % 3 = (3 - rest.length % 3) % 3 := by
    simp only [List.length_cons]
    omega
  rw [encode, hbits, groups_bits, groups_bits, groups_bits, groups_bits, hpad]
  rfl

theorem encode_two (a b : UInt8) :
    encode [a, b] =
      [sextetAt (a.toNat * 65536 + b.toNat * 256) 3, sextetAt (a.toNat * 65536 + b.toNat * 256) 2,
        sextetAt (a.toNat * 65536 + b.toNat * 256) 1, 61] := by
  have hbits : byteBits [a, b] = bits (6 + (6 + 4)) (a.toNat * 256 + b.toNat) := by
    simp only [byteBits, List.flatMap_cons, List.flatMap_nil, List.append_nil]
    rw [bits_byte_append]
  have hgroups : groups 5 (bits (6 + (6 + 4)) (a.toNat * 256 + b.toNat)) =
      [(a.toNat * 65536 + b.toNat * 256) / 2 ^ 18 % 64,
        (a.toNat * 65536 + b.toNat * 256) / 2 ^ 12 % 64,
        (a.toNat * 65536 + b.toNat * 256) / 2 ^ 6 % 64] := by
    have hfirst := groups_bits (6 + 4) (a.toNat * 256 + b.toNat) []
    have hsecond := groups_bits 4 (a.toNat * 256 + b.toNat) []
    rw [List.append_nil, List.append_nil] at hfirst hsecond
    rw [hfirst, hsecond, groups_bits_short _ (by decide) (by decide)]
    simp only [List.cons.injEq, and_true]
    omega
  rw [encode, hbits, hgroups]
  rfl

theorem encode_one (a : UInt8) :
    encode [a] =
      [sextetAt (a.toNat * 65536) 3, sextetAt (a.toNat * 65536) 2, 61, 61] := by
  have hbits : byteBits [a] = bits (6 + 2) a.toNat := by
    simp only [byteBits, List.flatMap_cons, List.flatMap_nil, List.append_nil]
  have hgroups : groups 5 (bits (6 + 2) a.toNat) =
      [a.toNat * 65536 / 2 ^ 18 % 64, a.toNat * 65536 / 2 ^ 12 % 64] := by
    have hfirst := groups_bits 2 a.toNat []
    rw [List.append_nil, List.append_nil] at hfirst
    rw [hfirst, groups_bits_short _ (by decide) (by decide)]
    simp only [List.cons.injEq, and_true]
    omega
  rw [encode, hbits, hgroups]
  rfl

end rounds

end LinuxLive.Base64
