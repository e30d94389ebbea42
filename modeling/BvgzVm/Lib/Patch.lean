import BvgzVm.Lib.Bytes

set_option autoImplicit false

/-! # Buffers with gaps that are patched later

A writer that emits bytes front to back, leaves gaps of `w` bytes where a value is not known yet,
and fills the gaps in afterwards. `target` is what the buffer has to contain in the end;
`Agrees w target gaps n buf` says that the first `n` bytes of `buf` are those of `target`, except
for the gaps. Each step of the writer keeps this relation, and without gaps it is equality
(`Agrees.take_eq`).
-/

namespace Patch

open Bytes

/-- The byte `k` is in the `w`-byte gap at `g`. -/
def InGap (w g k : Nat) : Prop := g ≤ k ∧ k < g + w

/-- **The first `n` bytes of `buf` are final**, but for the gaps. -/
structure Agrees (w : Nat) (target : List UInt8) (gaps : List Nat) (n : Nat) (buf : List UInt8) :
    Prop where
  le_length : n ≤ buf.length
  eq_target : ∀ k < n, (∀ g ∈ gaps, ¬ InGap w g k) → buf[k]? = target[k]?

variable {w : Nat} {target buf buf' : List UInt8} {gaps : List Nat} {n : Nat}

theorem agrees_zero (w : Nat) (target buf : List UInt8) : Agrees w target [] 0 buf := by
  constructor
  · exact Nat.zero_le _
  · intro k hk
    omega

/-- Growing the buffer keeps what is written. -/
theorem Agrees.resize (h : Agrees w target gaps n buf) (fill : Nat → UInt8) {m : Nat}
    (hm : buf.length ≤ m) : Agrees w target gaps n (resize fill buf m) := by
  have hle := h.le_length
  constructor
  · rw [length_resize]
    omega
  · intro k hk hgap
    have hkeep : (Bytes.resize fill buf m)[k]? = buf[k]? := by
      rw [Bytes.resize, List.getElem?_append_left (by rw [List.length_take]; omega),
        List.getElem?_take_of_lt (by omega)]
    rw [hkeep]
    exact h.eq_target k hk hgap

/-- Bytes of the target that stand at `n`, at an index behind `n`. -/
theorem getElem?_of_prefix_drop {bs : List UInt8} (h : bs <+: target.drop n) {k : Nat}
    (hn : n ≤ k) (hk : k < n + bs.length) : target[k]? = bs[k - n]? := by
  obtain ⟨post, hpost⟩ := h
  have hdrop : (target.drop n)[k - n]? = target[k]? := by
    rw [List.getElem?_drop]
    congr 1
    omega
  rw [← hdrop, ← hpost, List.getElem?_append_left (by omega)]

/-- **Writing the next bytes** of the target at the end of what is written. -/
theorem Agrees.write {bs : List UInt8} (h : Agrees w target gaps n buf)
    (hbs : bs <+: target.drop n) (hw : Bytes.write buf n bs = some buf') :
    Agrees w target gaps (n + bs.length) buf' := by
  have hle := (write_eq_some hw).1
  constructor
  · rw [write_length hw]
    exact hle
  · intro k hk hgap
    rw [write_getElem? hw]
    by_cases hnew : n ≤ k
    · rw [if_pos ⟨hnew, hk⟩, getElem?_of_prefix_drop hbs hnew hk]
    · rw [if_neg (by omega)]
      exact h.eq_target k (by omega) hgap

/-- **Leaving a gap** at the end of what is written. -/
theorem Agrees.skip (h : Agrees w target gaps n buf) (hlen : n + w ≤ buf.length) :
    Agrees w target (gaps ++ [n]) (n + w) buf := by
  constructor
  · exact hlen
  · intro k hk hgap
    have hnew : ¬ InGap w n k := hgap n (by simp)
    have hlt : k < n := by
      unfold InGap at hnew
      omega
    apply h.eq_target k hlt
    intro g hg
    exact hgap g (List.mem_append_left _ hg)

/-- **Filling a gap** with the bytes the target has there. -/
theorem Agrees.patch {g : Nat} {bs : List UInt8} (h : Agrees w target (g :: gaps) n buf)
    (hbs : bs <+: target.drop g) (hlen : bs.length = w) (hw : Bytes.write buf g bs = some buf') :
    Agrees w target gaps n buf' := by
  constructor
  · rw [write_length hw]
    exact h.le_length
  · intro k hk hgap
    rw [write_getElem? hw]
    by_cases hin : InGap w g k
    · obtain ⟨hge, hlt⟩ := hin
      rw [if_pos ⟨hge, by omega⟩, getElem?_of_prefix_drop hbs hge (by omega)]
    · rw [if_neg (fun hr => hin ⟨hr.1, by omega⟩)]
      apply h.eq_target k hk
      intro g' hg'
      rcases List.mem_cons.1 hg' with rfl | hg'
      · exact hin
      · exact hgap g' hg'

/-- Without gaps, what is written is the target. -/
theorem Agrees.take_eq (h : Agrees w target [] n buf) (hn : target.length = n) :
    buf.take n = target := by
  apply List.ext_getElem?
  intro k
  by_cases hk : k < n
  · rw [List.getElem?_take_of_lt hk]
    exact h.eq_target k hk (by simp)
  · rw [List.getElem?_eq_none (by rw [List.length_take]; omega),
      List.getElem?_eq_none (by omega)]

end Patch
