import Mathlib.Tactic

set_option autoImplicit false

/-! # Byte buffers

Little-endian numbers and bounds-checked access to a buffer of bytes.

* `toLE w n` is the `w`-byte little-endian form of `n`, `ofLE` reads one back.
* `read buf off w` and `write buf off bs` fail exactly when the range leaves the buffer.
* `load` and `store` are the same operations on numbers of a fixed width.
* `resize fill buf n` is the buffer after `realloc`, `fill` being what is found in new bytes.

A write is described by the bytes it leaves behind (`write_getElem?`); everything said about
reading after writing follows from that description.
-/

namespace Bytes

/-! ## Little-endian numbers -/

/-- The low `w` bytes of `n`, least significant first. -/
def toLE : Nat → Nat → List UInt8
  | 0, _ => []
  | w + 1, n => UInt8.ofNat n :: toLE w (n / 256)

/-- The number whose bytes, least significant first, are given. -/
def ofLE (bs : List UInt8) : Nat := bs.foldr (fun b acc => b.toNat + 256 * acc) 0

@[simp] theorem ofLE_nil : ofLE [] = 0 := rfl

@[simp] theorem ofLE_cons (b : UInt8) (bs : List UInt8) :
    ofLE (b :: bs) = b.toNat + 256 * ofLE bs := rfl

@[simp] theorem length_toLE (w n : Nat) : (toLE w n).length = w := by
  induction w generalizing n with
  | zero => rfl
  | succ w ih => rw [toLE, List.length_cons, ih]

theorem ofLE_toLE (w n : Nat) : ofLE (toLE w n) = n % 256 ^ w := by
  induction w generalizing n with
  | zero => rw [toLE, ofLE_nil, pow_zero, Nat.mod_one]
  | succ w ih =>
      have hmod : n % 256 ^ (w + 1) = n % 256 + 256 * (n / 256 % 256 ^ w) := by
        rw [pow_succ', Nat.mod_mul]
      rw [toLE, ofLE_cons, ih, hmod, UInt8.toNat_ofNat']

theorem ofLE_toLE_of_lt {w n : Nat} (h : n < 256 ^ w) : ofLE (toLE w n) = n := by
  rw [ofLE_toLE, Nat.mod_eq_of_lt h]

theorem ofLE_lt (bs : List UInt8) : ofLE bs < 256 ^ bs.length := by
  induction bs with
  | nil => simp
  | cons b t ih =>
      have hb : b.toNat < 256 := b.toNat_lt
      rw [ofLE_cons, List.length_cons, pow_succ]
      omega

theorem toLE_ofLE (bs : List UInt8) : toLE bs.length (ofLE bs) = bs := by
  induction bs with
  | nil => rfl
  | cons b t ih =>
      have hb : b.toNat < 256 := b.toNat_lt
      have hdiv : (b.toNat + 256 * ofLE t) / 256 = ofLE t := by omega
      have hlow : UInt8.ofNat (b.toNat + 256 * ofLE t) = b := by
        apply UInt8.toNat_inj.mp
        rw [UInt8.toNat_ofNat']
        omega
      rw [ofLE_cons, List.length_cons, toLE, hdiv, ih, hlow]

theorem ofLE_replicate_zero (k : Nat) : ofLE (List.replicate k 0) = 0 := by
  induction k with
  | zero => rfl
  | succ k ih => rw [List.replicate_succ, ofLE_cons, ih, UInt8.toNat_zero]

/-! ## Reading and writing a range -/

/-- The `w` bytes of `buf` from `off` on, if they are all there. -/
def read (buf : List UInt8) (off w : Nat) : Option (List UInt8) :=
  if off + w ≤ buf.length then some ((buf.drop off).take w) else none

/-- `buf` with the bytes from `off` on replaced by `bs`, if the range is inside. -/
def write (buf : List UInt8) (off : Nat) (bs : List UInt8) : Option (List UInt8) :=
  if off + bs.length ≤ buf.length then
    some (buf.take off ++ (bs ++ buf.drop (off + bs.length)))
  else none

/-- The `w`-byte little-endian number at `off`. -/
def load (buf : List UInt8) (off w : Nat) : Option Nat := (read buf off w).map ofLE

/-- `buf` with the low `w` bytes of `n` stored at `off`. -/
def store (buf : List UInt8) (off w n : Nat) : Option (List UInt8) := write buf off (toLE w n)

theorem read_eq_some {buf bs : List UInt8} {off w : Nat} :
    read buf off w = some bs ↔ off + w ≤ buf.length ∧ (buf.drop off).take w = bs := by
  unfold read
  split <;> simp_all

theorem read_isSome {buf : List UInt8} {off w : Nat} :
    (read buf off w).isSome ↔ off + w ≤ buf.length := by
  unfold read
  split <;> simp_all

theorem read_length {buf bs : List UInt8} {off w : Nat} (h : read buf off w = some bs) :
    bs.length = w := by
  obtain ⟨hle, rfl⟩ := read_eq_some.1 h
  rw [List.length_take, List.length_drop]
  omega

/-- A read is determined by the single bytes it covers. -/
theorem read_eq_some_iff_getElem? {buf bs : List UInt8} {off : Nat} :
    read buf off bs.length = some bs ↔
      off + bs.length ≤ buf.length ∧ ∀ k < bs.length, buf[off + k]? = bs[k]? := by
  rw [read_eq_some]
  refine and_congr_right (fun hle => ⟨?_, ?_⟩)
  · rintro h k hk
    rw [← h, List.getElem?_take, List.getElem?_drop, if_pos hk]
  · intro h
    refine List.ext_getElem? (fun k => ?_)
    rw [List.getElem?_take, List.getElem?_drop]
    by_cases hk : k < bs.length
    · rw [if_pos hk, h k hk]
    · rw [if_neg hk, List.getElem?_eq_none (by omega)]

theorem read_append (pre bs post : List UInt8) :
    read (pre ++ (bs ++ post)) pre.length bs.length = some bs := by
  rw [read_eq_some]
  refine ⟨by simp, ?_⟩
  rw [List.drop_left, List.take_left]

theorem write_isSome {buf bs : List UInt8} {off : Nat} :
    (write buf off bs).isSome ↔ off + bs.length ≤ buf.length := by
  unfold write
  split <;> simp_all

theorem write_eq_some {buf bs buf' : List UInt8} {off : Nat} (h : write buf off bs = some buf') :
    off + bs.length ≤ buf.length ∧ buf' = buf.take off ++ (bs ++ buf.drop (off + bs.length)) := by
  unfold write at h
  split at h
  · next hle => exact ⟨hle, (Option.some.inj h).symm⟩
  · cases h

theorem write_length {buf bs buf' : List UInt8} {off : Nat} (h : write buf off bs = some buf') :
    buf'.length = buf.length := by
  obtain ⟨hle, rfl⟩ := write_eq_some h
  simp
  omega

/-- **What a write leaves behind**: the new bytes in the range, the old ones outside. -/
theorem write_getElem? {buf bs buf' : List UInt8} {off : Nat} (h : write buf off bs = some buf')
    (k : Nat) :
    buf'[k]? = if off ≤ k ∧ k < off + bs.length then bs[k - off]? else buf[k]? := by
  obtain ⟨hle, rfl⟩ := write_eq_some h
  have htake : (buf.take off).length = off := by rw [List.length_take]; omega
  by_cases h1 : k < off
  · rw [List.getElem?_append_left (by omega), List.getElem?_take, if_pos h1, if_neg (by omega)]
  · rw [List.getElem?_append_right (by omega), htake]
    by_cases h2 : k < off + bs.length
    · rw [List.getElem?_append_left (by omega), if_pos ⟨by omega, h2⟩]
    · rw [List.getElem?_append_right (by omega), List.getElem?_drop, if_neg (by omega)]
      congr 1
      omega

theorem read_write_same {buf bs buf' : List UInt8} {off : Nat} (h : write buf off bs = some buf') :
    read buf' off bs.length = some bs := by
  obtain ⟨hle, -⟩ := write_eq_some h
  rw [read_eq_some_iff_getElem?, write_length h]
  refine ⟨hle, fun k hk => ?_⟩
  rw [write_getElem? h, if_pos ⟨by omega, by omega⟩]
  congr 1
  omega

/-- A read of a range the write did not touch gives what it gave before. -/
theorem read_write_disjoint {buf bs buf' : List UInt8} {off o w : Nat}
    (h : write buf off bs = some buf') (hd : o + w ≤ off ∨ off + bs.length ≤ o) :
    read buf' o w = read buf o w := by
  unfold read
  rw [write_length h]
  split
  · next hle =>
      refine congrArg some (List.ext_getElem? (fun k => ?_))
      rw [List.getElem?_take, List.getElem?_take, List.getElem?_drop, List.getElem?_drop]
      split
      · rw [write_getElem? h, if_neg (by omega)]
      · rfl
  · rfl

theorem load_isSome {buf : List UInt8} {off w : Nat} :
    (load buf off w).isSome ↔ off + w ≤ buf.length := by
  rw [load, Option.isSome_map, read_isSome]

theorem load_eq_none {buf : List UInt8} {off w : Nat} :
    load buf off w = none ↔ buf.length < off + w := by
  rw [← Option.not_isSome_iff_eq_none, load_isSome]
  omega

theorem load_lt {buf : List UInt8} {off w n : Nat} (h : load buf off w = some n) :
    n < 256 ^ w := by
  obtain ⟨bs, hbs, rfl⟩ := Option.map_eq_some_iff.1 h
  rw [← read_length hbs]
  exact ofLE_lt bs

theorem load_of_read {buf bs : List UInt8} {off w : Nat} (h : read buf off w = some bs) :
    load buf off w = some (ofLE bs) := by
  rw [load, h, Option.map_some]

/-- A number that fits is there exactly when its bytes are. -/
theorem load_eq_some_iff {buf : List UInt8} {off w n : Nat} (hn : n < 256 ^ w) :
    load buf off w = some n ↔ read buf off w = some (toLE w n) := by
  constructor
  · intro h
    obtain ⟨bs, hbs, rfl⟩ := Option.map_eq_some_iff.1 h
    rw [hbs, ← read_length hbs, toLE_ofLE]
  · intro h
    rw [load_of_read h, ofLE_toLE_of_lt hn]

theorem store_isSome {buf : List UInt8} {off w n : Nat} :
    (store buf off w n).isSome ↔ off + w ≤ buf.length := by
  rw [store, write_isSome, length_toLE]

theorem store_eq_none {buf : List UInt8} {off w n : Nat} :
    store buf off w n = none ↔ buf.length < off + w := by
  rw [← Option.not_isSome_iff_eq_none, store_isSome]
  omega

theorem store_length {buf buf' : List UInt8} {off w n : Nat} (h : store buf off w n = some buf') :
    buf'.length = buf.length := write_length h

theorem load_store_same {buf buf' : List UInt8} {off w n : Nat}
    (h : store buf off w n = some buf') : load buf' off w = some (n % 256 ^ w) := by
  have hr := read_write_same h
  rw [length_toLE] at hr
  rw [load_of_read hr, ofLE_toLE]

theorem load_store_disjoint {buf buf' : List UInt8} {off w n o v : Nat}
    (h : store buf off w n = some buf') (hd : o + v ≤ off ∨ off + w ≤ o) :
    load buf' o v = load buf o v := by
  rw [load, load, read_write_disjoint h (by rw [length_toLE]; exact hd)]

/-! ## Resizing -/

/-- `buf` cut or extended to `n` bytes; a new byte at `k` is `fill k`. -/
def resize (fill : Nat → UInt8) (buf : List UInt8) (n : Nat) : List UInt8 :=
  buf.take n ++ (List.range' buf.length (n - buf.length)).map fill

@[simp] theorem length_resize (fill : Nat → UInt8) (buf : List UInt8) (n : Nat) :
    (resize fill buf n).length = n := by
  rw [resize, List.length_append, List.length_take, List.length_map, List.length_range']
  omega

/-- A resized buffer keeps a prefix that fits. -/
theorem resize_append (fill : Nat → UInt8) {pre : List UInt8} (post : List UInt8) {n : Nat}
    (h : pre.length ≤ n) : ∃ post', resize fill (pre ++ post) n = pre ++ post' := by
  refine ⟨post.take (n - pre.length) ++
    (List.range' (pre ++ post).length (n - (pre ++ post).length)).map fill, ?_⟩
  rw [resize, List.take_append, List.take_of_length_le h, List.append_assoc]

/-- What is read from a resized buffer, where the buffer had it, is what was there. -/
theorem load_resize {fill : Nat → UInt8} {buf : List UInt8} {n off w v : Nat}
    (hbuf : off + w ≤ buf.length) (h : load (resize fill buf n) off w = some v) :
    load buf off w = some v := by
  have hn : off + w ≤ n := by
    have hsome := load_isSome.1 (Option.isSome_of_eq_some h)
    rwa [length_resize] at hsome
  have hlen : (buf.take (off + w)).length = off + w := by
    rw [List.length_take]
    omega
  have hle : (buf.take (off + w)).length ≤ n := by omega
  rcases resize_append fill (buf.drop (off + w)) hle with ⟨post, hpost⟩
  rw [List.take_append_drop] at hpost
  rw [hpost] at h
  rw [← h]
  unfold load read
  congr 1
  rw [if_pos hbuf, if_pos (by rw [List.length_append]; omega)]
  congr 1
  rw [List.drop_append_of_le_length (by omega), List.take_append_of_le_length
    (by rw [List.length_drop]; omega), List.drop_take, List.take_take]
  congr 1
  omega

/-- Writing right after a prefix keeps it. -/
theorem write_append {pre post bs : List UInt8} (h : bs.length ≤ post.length) :
    write (pre ++ post) pre.length bs = some (pre ++ (bs ++ post.drop bs.length)) := by
  unfold write
  rw [if_pos (by rw [List.length_append]; omega), List.take_left, List.drop_append,
    List.drop_of_length_le (by omega), Nat.add_sub_cancel_left, List.nil_append]

/-! ## Numbers and tables in a buffer -/

/-- A range that can be read cuts the buffer in three. -/
theorem read_split {buf bs : List UInt8} {off w : Nat} (h : read buf off w = some bs) :
    ∃ pre post, pre.length = off ∧ buf = pre ++ (bs ++ post) := by
  rcases read_eq_some.1 h with ⟨hle, hbs⟩
  refine ⟨buf.take off, buf.drop (off + w), List.length_take_of_le (by omega), ?_⟩
  rw [← hbs, ← List.drop_drop, List.take_append_drop, List.take_append_drop]

/-- The number whose bytes stand behind `pre`. -/
theorem load_append_toLE {w n : Nat} (hn : n < 256 ^ w) (pre post : List UInt8) :
    load (pre ++ (toLE w n ++ post)) pre.length w = some n := by
  have hread := read_append pre (toLE w n) post
  rw [length_toLE] at hread
  rw [load_of_read hread, ofLE_toLE_of_lt hn]

section Records

variable {α : Type} {enc : α → List UInt8} {k : Nat}

/-- A table of records of `k` bytes. -/
theorem length_records (hk : ∀ a, (enc a).length = k) (l : List α) :
    (l.flatMap enc).length = k * l.length := by
  induction l with
  | nil => rfl
  | cons a l ih =>
      rw [List.flatMap_cons, List.length_append, hk, ih, List.length_cons, Nat.mul_succ,
        Nat.add_comm]

/-- **Record `n`** of a table that stands behind `pre`. -/
theorem read_record (hk : ∀ a, (enc a).length = k) {l : List α} {n : Nat} {a : α}
    (hn : l[n]? = some a) (pre post : List UInt8) :
    read (pre ++ (l.flatMap enc ++ post)) (pre.length + k * n) k = some (enc a) := by
  have hlt : n < l.length := (List.getElem?_eq_some_iff.1 hn).1
  have hsplit : l = l.take n ++ (a :: l.drop (n + 1)) := by
    have hget : l[n] = a := (List.getElem?_eq_some_iff.1 hn).2
    rw [← hget, ← List.drop_eq_getElem_cons hlt, List.take_append_drop]
  have hbytes : pre ++ (l.flatMap enc ++ post) = (pre ++ (l.take n).flatMap enc) ++
      (enc a ++ ((l.drop (n + 1)).flatMap enc ++ post)) := by
    calc pre ++ (l.flatMap enc ++ post)
        = pre ++ ((l.take n ++ (a :: l.drop (n + 1))).flatMap enc ++ post) := by rw [← hsplit]
      _ = _ := by
          rw [List.flatMap_append, List.flatMap_cons]
          simp only [List.append_assoc]
  have hlen : (pre ++ (l.take n).flatMap enc).length = pre.length + k * n := by
    rw [List.length_append, length_records hk, List.length_take_of_le (by omega)]
  have hread := read_append (pre ++ (l.take n).flatMap enc) (enc a)
    ((l.drop (n + 1)).flatMap enc ++ post)
  rw [hk, hlen] at hread
  rw [hbytes, hread]

end Records

end Bytes
