import BvgzVm.Asm.ParserInv
import BvgzVm.Lib.Overlay
import BvgzVm.Lib.UpTo

set_option autoImplicit false

/-! # What `%data` directives build

The parser keeps an allocation that grows in blocks, and counts the bytes in use. Seen from outside
there is an `Image`: how many bytes are in use, and a sequence of bytes that is zero behind the
allocation. A `Draft` is the state of the parser with the image in place of the allocation, and
`Draft.addData` what a directive does to it: the content is laid over the image at its offset and
the image ends behind the content, or where the size says.

The functions of the parser refine this (`addData_refines`), whatever the size of the blocks, up to
a search for a larger allocation that does not end.
-/

namespace BvgzVm

open Bytes CLib Fallible Overlay

variable {T : InstnTable}

/-! ## Images -/

/-- The bytes in use, and what is stored in them and behind them. -/
structure Image where
  size : UInt32
  cells : ℕ → UInt8

/-- The image whose allocation is `d`. -/
structure Draws (d : DataArea) (m : Image) : Prop where
  length : d.memory.length = d.memAlloc.toNat
  inside : d.memsz ≤ d.memAlloc
  memsz : d.memsz = m.size
  cells : ∀ i, d.memory[i]?.getD 0 = m.cells i

/-- `content` from `off` on. Without content nothing changes, and content that goes beyond the
numbers of 32 bits does not fit in any allocation. -/
def Image.place (off : UInt32) (content : List UInt8) (m : Image) : Except PrsFault Image :=
  if content = [] then .ok m
  else if off.toNat + content.length < 2 ^ 32 then
    .ok ⟨UInt32.ofNat (off.toNat + content.length), overlay m.cells off.toNat content⟩
  else .error .memoryWrite

/-- The relation between an allocation and an image, up to a search that does not end. -/
abbrev DrawsUpTo (x : Except PrsFault DataArea) (y : Except PrsFault Image) : Prop :=
  UpTo .hang Draws x y

theorem Draws.memsz_le {d : DataArea} {m : Image} (h : Draws d m) :
    d.memsz.toNat ≤ d.memory.length := by
  rw [h.length]
  exact UInt32.le_iff_toNat_le.1 h.inside

/-! ## The allocation -/

theorem growAlloc_ge {block alloc n n' : UInt32} {fuel : ℕ}
    (h : growAlloc block alloc fuel n = some n') : alloc ≤ n' := by
  induction fuel generalizing n with
  | zero => cases h
  | succ fuel ih =>
      rw [growAlloc] at h
      by_cases hlt : n < alloc
      · rw [if_pos hlt] at h
        exact ih h
      · rw [if_neg hlt] at h
        obtain rfl := Option.some.inj h
        exact UInt32.not_lt.1 hlt

/-- The bytes behind the allocation are zero already. -/
theorem getD_append_zeros (l : List UInt8) (k i : ℕ) :
    (l ++ List.replicate k 0)[i]?.getD 0 = l[i]?.getD 0 := by
  by_cases hi : i < l.length
  · rw [List.getElem?_append_left hi]
  · have hnone : l[i]? = none := List.getElem?_eq_none (by omega)
    rw [List.getElem?_append_right (by omega), hnone, List.getElem?_replicate]
    split
    · rfl
    · rfl

/-- **A larger allocation** has the same image. -/
theorem ensureMemoryAlloc_draws (block alloc : UInt32) {d : DataArea} {m : Image}
    (h : Draws d m) :
    UpTo .hang (fun d' m' => Draws d' m' ∧ alloc ≤ d'.memAlloc)
      (ensureMemoryAlloc block alloc d) (.ok m) := by
  unfold ensureMemoryAlloc
  by_cases hmem : d.memsz < alloc
  · rw [if_pos hmem]
    cases hgrow : growAlloc block alloc (2 ^ 32) d.memAlloc with
    | none => exact .gaveUp _
    | some newSize =>
        have hge := growAlloc_ge hgrow
        by_cases hnew : d.memAlloc < newSize
        · simp only [if_pos hnew]
          refine .ok ⟨⟨?_, ?_, h.memsz, ?_⟩, hge⟩
          · have hlt := UInt32.lt_iff_toNat_lt.1 hnew
            show (d.memory ++ List.replicate _ 0).length = newSize.toNat
            rw [List.length_append, List.length_replicate, h.length]
            omega
          · exact UInt32.le_trans h.inside (UInt32.le_of_lt hnew)
          · intro i
            rw [getD_append_zeros]
            exact h.cells i
        · simp only [if_neg hnew]
          exact .ok ⟨h, UInt32.le_trans hge (UInt32.not_lt.1 hnew)⟩
  · rw [if_neg hmem]
    exact .ok ⟨h, UInt32.le_trans (UInt32.not_lt.1 hmem) h.inside⟩

theorem ensureMemoryAtOffset_draws (block size offset : UInt32) {d : DataArea} {m : Image}
    (h : Draws d m) : DrawsUpTo (ensureMemoryAtOffset block size offset d) (.ok m) := by
  unfold ensureMemoryAtOffset
  by_cases hoff : offset = notGiven
  · rw [if_pos hoff]
    exact .ok h
  · rw [if_neg hoff]
    exact (ensureMemoryAlloc_draws block _ h).mono (fun _ _ hd => hd.1)

theorem growTo_draws (block total : UInt32) {d : DataArea} {m : Image} (h : Draws d m) :
    UpTo .hang (fun d' m' => Draws d' m' ∧ total ≤ d'.memAlloc)
      (growTo block total d) (.ok m) := by
  unfold growTo
  by_cases hlt : d.memsz < total
  · rw [if_pos hlt]
    exact ensureMemoryAlloc_draws block total h
  · rw [if_neg hlt]
    exact .ok ⟨h, UInt32.le_trans (UInt32.not_lt.1 hlt) h.inside⟩

/-! ## Writing -/

/-- The cells after a write. -/
theorem getD_write {buf bs buf' : List UInt8} {off : ℕ} (h : write buf off bs = some buf')
    {f : ℕ → UInt8} (hf : ∀ i, buf[i]?.getD 0 = f i) (i : ℕ) :
    buf'[i]?.getD 0 = overlay f off bs i := by
  rw [write_getElem? h]
  by_cases hin : off ≤ i ∧ i < off + bs.length
  · rw [if_pos hin]
    have hlt : i - off < bs.length := by omega
    rw [overlay_inside hin.1 (List.getElem?_eq_getElem hlt), List.getElem?_eq_getElem hlt,
      Option.getD_some]
  · rw [if_neg hin, hf]
    by_cases hlt : i < off
    · rw [overlay_before bs hlt]
    · rw [overlay_behind (by omega)]

/-- **A write** puts its bytes in place. -/
theorem writeToMemory_draws (block off : UInt32) {src : List UInt8} {d : DataArea} {m : Image}
    (hne : src ≠ []) (hlen : src.length < 2 ^ 32) (h : Draws d m) :
    DrawsUpTo (writeToMemory block src off d) (m.place off src) := by
  have hpos : 0 < src.length := List.length_pos_iff.2 hne
  refine UpTo.bind_left (ensureMemoryAlloc_draws block _ h) ?_
  rintro d' ⟨h', halloc⟩
  have hle := UInt32.le_iff_toNat_le.1 halloc
  rw [UInt32.toNat_add, UInt32.toNat_ofNat', Nat.mod_eq_of_lt hlen] at hle
  rw [Image.place, if_neg hne]
  by_cases hfit : off.toNat + src.length < 2 ^ 32
  · rw [Nat.mod_eq_of_lt hfit] at hle
    rw [if_pos hfit]
    cases hw : write d'.memory off.toNat src with
    | none =>
        have hsome := write_isSome.2 (show off.toNat + src.length ≤ d'.memory.length by
          rw [h'.length]
          exact hle)
        rw [hw] at hsome
        cases hsome
    | some memory =>
        have hsize : off + UInt32.ofNat src.length = UInt32.ofNat (off.toNat + src.length) := by
          rw [UInt32.ofNat_add, UInt32.ofNat_toNat]
        refine .ok ⟨?_, ?_, hsize, getD_write hw h'.cells⟩
        · exact (write_length hw).trans h'.length
        · exact halloc
  · -- the last byte is behind every allocation
    rw [if_neg hfit]
    have hnone : write d'.memory off.toNat src = none := by
      have hsz := d'.memAlloc.toNat_lt
      rw [← Option.not_isSome_iff_eq_none, write_isSome, h'.length]
      omega
    simp only [hnone]
    exact .error _

/-- Two parts placed one behind the other are placed as one. -/
theorem place_append (off : UInt32) (l l' : List UInt8) (m : Image) :
    m.place off (l ++ l') = m.place off l >>= Image.place (off + UInt32.ofNat l.length) l' := by
  by_cases hl : l = []
  · simp [hl, Image.place]
  · by_cases hl' : l' = []
    · simp only [hl', List.append_nil]
      unfold Image.place
      simp only [if_neg hl]
      split
      · simp
      · rfl
    · have hpos : 0 < l'.length := List.length_pos_iff.2 hl'
      unfold Image.place
      simp only [if_neg hl', List.append_eq_nil_iff, hl, false_and, if_false, List.length_append]
      by_cases hfit : off.toNat + l.length < 2 ^ 32
      · rw [if_pos hfit, ok_bind]
        have hoff : (off + UInt32.ofNat l.length).toNat = off.toNat + l.length := by
          rw [UInt32.toNat_add, UInt32.toNat_ofNat']
          omega
        rw [hoff, overlay_append, Nat.add_assoc]
      · rw [if_neg hfit, if_neg (by omega)]
        rfl

/-- **The blocks of a file** are placed as one. The induction is on the rounds of the loop; a round
that reads nothing is the last one. -/
theorem writeBlocks_draws {block : UInt32} (hblock : 0 < block) {fuel : ℕ} {contents : List UInt8}
    {w : UInt32} {d : DataArea} {m : Image} (hfuel : contents.length < fuel) (h : Draws d m) :
    DrawsUpTo (writeBlocks block fuel contents w d) (m.place w contents) := by
  have hpos : 0 < block.toNat := by simpa using UInt32.lt_iff_toNat_lt.1 hblock
  induction fuel generalizing contents w d m with
  | zero => omega
  | succ fuel ih =>
      rw [writeBlocks]
      by_cases hbuffer : contents.take block.toNat = []
      · have hnil : contents = [] := by
          rcases List.take_eq_nil_iff.1 hbuffer with hz | hnil
          · omega
          · exact hnil
        simp only [if_pos hbuffer]
        rw [hnil, Image.place, if_pos rfl]
        exact .ok h
      · simp only [if_neg hbuffer]
        have hsplit := place_append w (contents.take block.toNat) (contents.drop block.toNat) m
        rw [List.take_append_drop] at hsplit
        rw [hsplit]
        have hlen : (contents.take block.toNat).length < 2 ^ 32 := by
          have := block.toNat_lt
          rw [List.length_take]
          omega
        refine (writeToMemory_draws block w hbuffer hlen h).bind ?_
        intro d' m' h'
        refine ih ?_ h'
        have hne : contents ≠ [] := by
          rintro rfl
          exact hbuffer List.take_nil
        have := List.length_pos_iff.2 hne
        rw [List.length_drop]
        omega

/-- Whether a string literal has its closing quote, and the bytes it stands for. A character that
is not in the `switch` leaves `escape_chr` as it is. -/
def strBytes : CStr → Bool → Bool × List UInt8
  | [], _ => (false, [])
  | c :: cs, escapeChr =>
      if c = '\\' ∧ escapeChr = false then strBytes cs true
      else if c = '"' ∧ escapeChr = false then (true, [])
      else if c = '\\' ∨ c = '"' then
        ((strBytes cs false).1, byte c :: (strBytes cs false).2)
      else match escaped c with
        | some b =>
            ((strBytes cs false).1, (if escapeChr then b else byte c) :: (strBytes cs false).2)
        | none => ((strBytes cs escapeChr).1, byte c :: (strBytes cs escapeChr).2)

/-- What the loop over a string literal leaves. -/
abbrev StrUpTo (block : UInt32) (str : CStr) (escapeChr : Bool) (w : UInt32) (d : DataArea)
    (r : Bool × List UInt8) (m : Image) : Prop :=
  UpTo .hang (fun x m' => x.1 = r.1 ∧ x.2.1 = w + UInt32.ofNat r.2.length ∧ Draws x.2.2 m')
    (writeStr block str escapeChr w d) (m.place w r.2)

/-- One character is written and the loop goes on. -/
theorem writeChar_draws {block w : UInt32} {b : UInt8} {cs : CStr} {escapeChr : Bool}
    {d : DataArea} {m : Image} {r : Bool × List UInt8} (h : Draws d m)
    (ih : ∀ (w' : UInt32) (d' : DataArea) (m' : Image), Draws d' m' →
      StrUpTo block cs escapeChr w' d' r m') :
    UpTo .hang (fun x m' => x.1 = r.1 ∧ x.2.1 = w + UInt32.ofNat (b :: r.2).length ∧
        Draws x.2.2 m')
      (writeToMemory block [b] w d >>= fun d => writeStr block cs escapeChr (w + 1) d)
      (m.place w (b :: r.2)) := by
  have hsplit := place_append w [b] r.2 m
  rw [List.singleton_append] at hsplit
  rw [hsplit]
  refine (writeToMemory_draws block w (by simp) (by simp) h).bind ?_
  intro d' m' h'
  refine (ih (w + 1) d' m' h').mono ?_
  rintro x m'' ⟨hstop, hoff, hd⟩
  refine ⟨hstop, ?_, hd⟩
  rw [hoff, List.length_cons, UInt32.add_assoc, UInt32.ofNat_add, UInt32.add_comm 1]
  rfl

/-- **The characters of a string** are placed as one. -/
theorem writeStr_draws (block : UInt32) (str : CStr) (escapeChr : Bool) (w : UInt32)
    {d : DataArea} {m : Image} (h : Draws d m) :
    StrUpTo block str escapeChr w d (strBytes str escapeChr) m := by
  induction str generalizing escapeChr w d m with
  | nil => exact .ok ⟨rfl, (UInt32.add_zero w).symm, h⟩
  | cons c cs ih =>
      unfold StrUpTo
      rw [writeStr, strBytes]
      by_cases hesc : c = '\\' ∧ escapeChr = false
      · rw [if_pos hesc, if_pos hesc]
        exact ih true w h
      · rw [if_neg hesc, if_neg hesc]
        by_cases hquote : c = '"' ∧ escapeChr = false
        · rw [if_pos hquote, if_pos hquote]
          exact .ok ⟨rfl, (UInt32.add_zero w).symm, h⟩
        · rw [if_neg hquote, if_neg hquote]
          by_cases hlit : c = '\\' ∨ c = '"'
          · rw [if_pos hlit, if_pos hlit]
            exact writeChar_draws h (fun w' d' m' h' => ih false w' h')
          · rw [if_neg hlit, if_neg hlit]
            cases escaped c with
            | some b => exact writeChar_draws h (fun w' d' m' h' => ih false w' h')
            | none => exact writeChar_draws h (fun w' d' m' h' => ih escapeChr w' h')

/-! ## Drafts -/

/-- The state of the parser with an image: `prs` has an empty allocation, and `memsz`. -/
structure Draft (T : InstnTable) where
  prs : Prs T
  cells : ℕ → UInt8

/-- The image of a draft. -/
def Draft.image (a : Draft T) : Image := ⟨a.prs.result.memsz, a.cells⟩

/-- The draft with another image. -/
def Draft.setImage (a : Draft T) (m : Image) : Draft T :=
  ⟨a.prs.setData ⟨[], m.size, 0⟩, m.cells⟩

/-- A change of the parser that is not about the image. -/
def Draft.map (a : Draft T) (f : Prs T → Prs T) : Draft T := ⟨f a.prs, a.cells⟩

/-- `offset != (uint32_t)-1 ? offset : memsz` -/
def Image.start (offset : UInt32) (m : Image) : UInt32 :=
  if offset = notGiven then m.size else offset

/-- The draft that ends where the size says, with a warning if bytes are cut off. -/
def Draft.sized (filename : FileName) (lineno off size : UInt32) (a : Draft T) : Draft T :=
  if size = notGiven then a
  else
    let total := size + off
    let warned := if total < a.image.size then
        a.map (fun p => p.warn filename lineno ("trimming memory size ".toList ++
          showNat a.image.size.toNat ++ " -> ".toList ++ showNat total.toNat ++
          " bytes".toList))
      else a
    warned.setImage ⟨total, a.cells⟩

/-- The label of a directive, at the offset of the content. -/
def Draft.labelled (filename : FileName) (lineno off : UInt32) (label : Option CStr)
    (a : Draft T) : Draft T :=
  match label with
  | none => a
  | some label => a.map (fun p => p.addLabel filename lineno label off true)

/-- The end of a directive. -/
def Draft.finish (filename : FileName) (lineno off size : UInt32) (label : Option CStr)
    (a : Draft T) : Draft T :=
  (a.sized filename lineno off size).labelled filename lineno off label

/-- A file. -/
def Draft.addFile (env : PrsEnv) (filename : FileName) (lineno : UInt32) (label : Option CStr)
    (inclFile : CStr) (size offset : UInt32) (includePaths : List CStr) (a : Draft T) :
    Except PrsFault (Draft T) :=
  match findFile env inclFile includePaths a.prs.erange with
  | (none, erange) =>
      .ok (a.map (fun p => { p with erange }.error filename lineno
        ("file not found: ".toList ++ inclFile)))
  | (some filepath, erange) =>
      match env.fopen filepath with
      | none => .error .nullFile
      | some contents => do
          let off := a.image.start offset
          let m ← a.image.place off contents
          .ok (((a.map (fun p => { p with erange })).setImage m).finish filename lineno off size
            label)

/-- A string, which gets a terminator. -/
def Draft.addStr (filename : FileName) (lineno : UInt32) (label : Option CStr) (str : CStr)
    (size offset : UInt32) (a : Draft T) : Except PrsFault (Draft T) := do
  let off := a.image.start offset
  let r := strBytes str false
  let m ← a.image.place off (r.2 ++ [0])
  let a := (a.setImage m).map (fun p =>
    if r.1 then p else p.error filename lineno "bad string format".toList)
  .ok (a.finish filename lineno off size label)

/-- The bytes of a hex number. -/
def hexContent (hex : CStr) : List UInt8 :=
  toLE (hexBytes hex.length) (strtoull hex 16).value.toNat

/-- What is reported about a hex number. -/
def hexReports (filename : FileName) (lineno : UInt32) (hex : CStr) (p : Prs T) : Prs T :=
  let n := strtoull hex 16
  let p := p.setErange n
  let p := if n.rest = [] then p else p.warn filename lineno "bad hex value".toList
  if hex.length ≤ 16 then p
  else p.warn filename lineno "cannot determine number length: default to 64 bits".toList

/-- A number. -/
def Draft.addHex (filename : FileName) (lineno : UInt32) (label : Option CStr) (hex : CStr)
    (size offset : UInt32) (a : Draft T) : Except PrsFault (Draft T) := do
  let off := a.image.start offset
  let m ← a.image.place off (hexContent hex)
  let a := (a.map (hexReports filename lineno hex)).setImage m
  .ok (a.finish filename lineno off size label)

/-- A cell for the address of a label. -/
def Draft.addLabelCell (filename : FileName) (lineno : UInt32) (label : Option CStr)
    (labelValue : CStr) (size offset : UInt32) (a : Draft T) : Except PrsFault (Draft T) :=
  let size := labelCellSize size
  if size ≠ 4 ∧ size ≠ 8 then
    .ok (a.map (fun p => p.error filename lineno
      "bad data directive: size must be either 4 (default) or 8".toList))
  else do
    let off := a.image.start offset
    let m ← a.image.place off (List.replicate size.toNat 0)
    let ref : LabelRef := ⟨filename, lineno, labelValue, size, off⟩
    let a := (a.setImage m).map (fun p =>
      { p with result := { p.result with labelRefs := ref :: p.result.labelRefs } })
    .ok (a.finish filename lineno off size label)

/-- **What a directive does** to a draft. -/
def Draft.addData (env : PrsEnv) (filename : FileName) (lineno : UInt32) (label : Option CStr)
    (data : CStr) (o : DataOptions) (includePaths : List CStr) (a : Draft T) :
    Except PrsFault (Draft T) :=
  match data with
  | '=' :: inclFile => a.addFile env filename lineno label inclFile o.size o.offset includePaths
  | '"' :: str => a.addStr filename lineno label str o.size o.offset
  | '0' :: 'x' :: c :: hex => a.addHex filename lineno label (c :: hex) o.size o.offset
  | '&' :: labelValue => a.addLabelCell filename lineno label labelValue o.size o.offset
  | _ => .ok (a.map (fun p => p.error filename lineno
      "bad data directive: incorrect data specification".toList))

/-- The draft of a state of the parser. -/
structure Drafted (s : Prs T) (a : Draft T) : Prop where
  prs : a.prs = s.setData ⟨[], s.result.memsz, 0⟩
  draws : Draws s.result.toDataArea a.image

theorem Drafted.memsz {s : Prs T} {a : Draft T} (h : Drafted s a) :
    s.result.memsz = a.image.size := h.draws.memsz

theorem Drafted.erange {s : Prs T} {a : Draft T} (h : Drafted s a) : a.prs.erange = s.erange := by
  rw [h.prs]
  rfl

/-- A change of the parser that leaves the allocation alone. -/
structure Apart (f : Prs T → Prs T) : Prop where
  comm : ∀ s d, f (s.setData d) = (f s).setData d
  area : ∀ s, (f s).result.toDataArea = s.result.toDataArea

theorem Apart.comp {f g : Prs T → Prs T} (hf : Apart f) (hg : Apart g) :
    Apart (fun s => g (f s)) where
  comm s d := by rw [hf.comm, hg.comm]
  area s := by rw [hg.area, hf.area]

theorem apart_id : Apart (fun s : Prs T => s) := ⟨fun _ _ => rfl, fun _ => rfl⟩

theorem apart_error (filename : FileName) (lineno : UInt32) (message : CStr) :
    Apart (fun s : Prs T => s.error filename lineno message) := ⟨fun _ _ => rfl, fun _ => rfl⟩

theorem apart_warn (filename : FileName) (lineno : UInt32) (message : CStr) :
    Apart (fun s : Prs T => s.warn filename lineno message) := ⟨fun _ _ => rfl, fun _ => rfl⟩

theorem apart_erange (erange : Bool) : Apart (fun s : Prs T => { s with erange }) :=
  ⟨fun _ _ => rfl, fun _ => rfl⟩

theorem apart_setErange (r : Strto) : Apart (fun s : Prs T => s.setErange r) :=
  ⟨fun _ _ => rfl, fun _ => rfl⟩

theorem apart_addLabel (filename : FileName) (lineno : UInt32) (label : CStr) (off : UInt32) :
    Apart (fun s : Prs T => s.addLabel filename lineno label off true) :=
  ⟨fun _ _ => rfl, fun _ => rfl⟩

theorem apart_addRef (ref : LabelRef) : Apart (fun s : Prs T =>
    { s with result := { s.result with labelRefs := ref :: s.result.labelRefs } }) :=
  ⟨fun _ _ => rfl, fun _ => rfl⟩

theorem apart_ite (c : Prop) [Decidable c] {f g : Prs T → Prs T} (hf : Apart f) (hg : Apart g) :
    Apart (fun s => if c then f s else g s) := by
  by_cases hc : c
  · simpa only [if_pos hc] using hf
  · simpa only [if_neg hc] using hg

theorem apart_hexReports (filename : FileName) (lineno : UInt32) (hex : CStr) :
    Apart (hexReports (T := T) filename lineno hex) := by
  have hbad := (apart_setErange (T := T) (strtoull hex 16)).comp
    (apart_ite ((strtoull hex 16).rest = []) apart_id
      (apart_warn filename lineno "bad hex value".toList))
  exact hbad.comp (apart_ite (hex.length ≤ 16) apart_id (apart_warn filename lineno
    "cannot determine number length: default to 64 bits".toList))

section Steps

variable {s : Prs T} {a : Draft T}

theorem Drafted.map {f : Prs T → Prs T} (hf : Apart f) (h : Drafted s a) :
    Drafted (f s) (a.map f) := by
  have hprs : f a.prs = (f s).setData ⟨[], (f s).result.memsz, 0⟩ := by
    rw [h.prs, hf.comm]
    rw [show (f s).result.memsz = s.result.memsz from congrArg DataArea.memsz (hf.area s)]
  refine ⟨hprs, ?_⟩
  have himage : (a.map f).image = a.image := by
    show Image.mk (f a.prs).result.memsz a.cells = _
    rw [congrArg DataArea.memsz (hf.area a.prs)]
    rfl
  rw [hf.area, himage]
  exact h.draws

theorem Drafted.setData {d : DataArea} {m : Image} (h : Drafted s a) (hd : Draws d m) :
    Drafted (s.setData d) (a.setImage m) := by
  refine ⟨?_, hd⟩
  show a.prs.setData ⟨[], m.size, 0⟩ = s.setData ⟨[], d.memsz, 0⟩
  rw [h.prs, hd.memsz]
  rfl

/-- The size of a directive. -/
theorem setMemorySize_drafts (block : UInt32) (filename : FileName) (lineno off size : UInt32)
    (h : Drafted s a) :
    UpTo .hang Drafted (setMemorySize block filename lineno off size s)
      (.ok (a.sized filename lineno off size)) := by
  unfold setMemorySize Draft.sized
  by_cases hsize : size = notGiven
  · rw [if_pos hsize, if_pos hsize]
    exact .ok h
  · rw [if_neg hsize, if_neg hsize]
    by_cases htrim : size + off < a.image.size
    · -- the image is cut off, and the rest stays in the allocation
      have hlt : size + off < s.result.memsz := by
        rw [h.memsz]
        exact htrim
      have hwarned := h.map (apart_warn filename lineno ("trimming memory size ".toList ++
        showNat a.image.size.toNat ++ " -> ".toList ++ showNat (size + off).toNat ++
        " bytes".toList))
      simp only [if_pos htrim, h.memsz]
      refine .ok (hwarned.setData ⟨h.draws.length, ?_, rfl, h.draws.cells⟩)
      exact UInt32.le_trans (UInt32.le_of_lt hlt) h.draws.inside
    · have hnlt : ¬ size + off < s.result.memsz := by
        rw [h.memsz]
        exact htrim
      simp only [if_neg hnlt, if_neg htrim]
      refine (growTo_draws block _ h.draws).bind_left ?_
      rintro d ⟨hd, htotal⟩
      exact .ok (h.setData ⟨hd.length, htotal, rfl, hd.cells⟩)

/-- The end of a directive. -/
theorem finishData_drafts (block : UInt32) (filename : FileName) (lineno off size : UInt32)
    (label : Option CStr) (h : Drafted s a) :
    UpTo .hang Drafted (finishData block filename lineno off size label s)
      (.ok (a.finish filename lineno off size label)) := by
  refine (setMemorySize_drafts block filename lineno off size h).bind_left ?_
  intro s' hs'
  cases label with
  | none => exact .ok hs'
  | some label => exact .ok (hs'.map (apart_addLabel filename lineno label off))

variable (env : PrsEnv) (filename : FileName) (lineno : UInt32) (label : Option CStr)
  (size offset : UInt32)

/-- Where the content goes. -/
theorem writeOffset_eq {d : DataArea} {m : Image} (h : Draws d m) :
    writeOffset offset d = m.start offset := by
  unfold writeOffset Image.start
  rw [h.memsz]

theorem addFileToMemory_drafts (hblock : 0 < env.memAllocBlockSz) (inclFile : CStr)
    (includePaths : List CStr) (h : Drafted s a) :
    UpTo .hang Drafted
      (addFileToMemory env filename lineno label inclFile size offset includePaths s)
      (a.addFile env filename lineno label inclFile size offset includePaths) := by
  unfold addFileToMemory Draft.addFile
  rw [h.erange]
  rcases findFile env inclFile includePaths s.erange with ⟨_ | filepath, erange⟩
  · exact .ok (h.map ((apart_erange erange).comp (apart_error _ _ _)))
  · have h' := h.map (apart_erange erange)
    dsimp only
    refine (ensureMemoryAtOffset_draws env.memAllocBlockSz size offset h'.draws).bind_left ?_
    intro d hd
    cases env.fopen filepath with
    | none => exact .error _
    | some contents =>
        simp only [writeOffset_eq offset hd]
        refine (writeBlocks_draws hblock (Nat.lt_succ_self _) hd).bind ?_
        intro d' m' hd'
        exact finishData_drafts _ filename lineno _ size label (h'.setData hd')

theorem addStrToMemory_drafts (str : CStr) (h : Drafted s a) :
    UpTo .hang Drafted (addStrToMemory env filename lineno label str size offset s)
      (a.addStr filename lineno label str size offset) := by
  refine (ensureMemoryAtOffset_draws env.memAllocBlockSz size offset h.draws).bind_left ?_
  intro d hd
  simp only [writeOffset_eq offset hd, Draft.addStr]
  rw [place_append, bind_assoc]
  refine (writeStr_draws env.memAllocBlockSz str false _ hd).bind ?_
  rintro ⟨stop, wOffset, d₁⟩ m₁ ⟨rfl, rfl, hd₁⟩
  refine (writeToMemory_draws env.memAllocBlockSz _ (by simp) (by simp) hd₁).bind ?_
  intro d₂ m₂ hd₂
  refine finishData_drafts _ filename lineno _ size label ?_
  exact (h.setData hd₂).map (apart_ite _ apart_id (apart_error _ _ _))

theorem hexContent_ne (hex : CStr) : hexContent hex ≠ [] := by
  apply List.ne_nil_of_length_pos
  rw [hexContent, length_toLE, hexBytes]
  split_ifs <;> omega

theorem hexContent_length_lt (hex : CStr) : (hexContent hex).length < 2 ^ 32 := by
  rw [hexContent, length_toLE, hexBytes]
  split_ifs <;> omega

theorem addHexToMemory_drafts (hex : CStr) (h : Drafted s a) :
    UpTo .hang Drafted (addHexToMemory env filename lineno label hex size offset s)
      (a.addHex filename lineno label hex size offset) := by
  refine (ensureMemoryAtOffset_draws env.memAllocBlockSz size offset h.draws).bind_left ?_
  intro d hd
  have h' := h.map (apart_hexReports filename lineno hex)
  simp only [Draft.addHex, writeOffset_eq offset hd]
  -- the reports are made after the allocation has grown, and do not see it
  refine (writeToMemory_draws env.memAllocBlockSz _ (hexContent_ne hex)
    (hexContent_length_lt hex) hd).bind ?_
  intro d' m' hd'
  refine finishData_drafts _ filename lineno _ size label ?_
  have hover : (hexReports filename lineno hex (s.setData d)).setData d' =
      (hexReports filename lineno hex s).setData d' := by
    rw [(apart_hexReports filename lineno hex).comm]
    rfl
  show Drafted ((hexReports filename lineno hex (s.setData d)).setData d') _
  rw [hover]
  exact h'.setData hd'

theorem labelCell_length {n : UInt32} (hn : ¬ (n ≠ 4 ∧ n ≠ 8)) :
    List.replicate n.toNat (0 : UInt8) ≠ [] ∧
      (List.replicate n.toNat (0 : UInt8)).length < 2 ^ 32 := by
  rw [not_and_or, not_not, not_not] at hn
  rcases hn with rfl | rfl
  · exact ⟨by simp, by simp⟩
  · exact ⟨by simp, by simp⟩

theorem addLabelToMemory_drafts (labelValue : CStr) (h : Drafted s a) :
    UpTo .hang Drafted (addLabelToMemory env filename lineno label labelValue size offset s)
      (a.addLabelCell filename lineno label labelValue size offset) := by
  unfold addLabelToMemory Draft.addLabelCell
  by_cases hsize : labelCellSize size ≠ 4 ∧ labelCellSize size ≠ 8
  · simp only [if_pos hsize]
    exact .ok (h.map (apart_error _ _ _))
  · simp only [if_neg hsize]
    refine (ensureMemoryAtOffset_draws env.memAllocBlockSz _ offset h.draws).bind_left ?_
    intro d hd
    rw [writeOffset_eq offset hd]
    rcases labelCell_length hsize with ⟨hne, hlen⟩
    refine (writeToMemory_draws env.memAllocBlockSz _ hne hlen hd).bind ?_
    intro d' m' hd'
    refine finishData_drafts _ filename lineno _ _ label ?_
    exact (h.setData hd').map (apart_addRef _)

/-- Data of no kind is an error. -/
theorem Draft.addData_other {data : CStr} (o : DataOptions) (includePaths : List CStr) (a : Draft T)
    (hfile : ∀ inclFile, data = '=' :: inclFile → False) (hstr : ∀ str, data = '"' :: str → False)
    (hhex : ∀ c hex, data = '0' :: 'x' :: c :: hex → False)
    (hlabel : ∀ labelValue, data = '&' :: labelValue → False) :
    a.addData env filename lineno label data o includePaths =
      .ok (a.map (fun p => p.error filename lineno
        "bad data directive: incorrect data specification".toList)) := by
  unfold Draft.addData
  split
  · exact absurd rfl (hfile _)
  · exact absurd rfl (hstr _)
  · exact absurd rfl (hhex _ _)
  · exact absurd rfl (hlabel _)
  · rfl

/-- **The kinds of data** do what the draft says. -/
theorem addData_drafts (hblock : 0 < env.memAllocBlockSz) (data : CStr) (o : DataOptions)
    (includePaths : List CStr) (h : Drafted s a) :
    UpTo .hang (fun r b => Drafted r.2 b)
      (addData env filename lineno label data o includePaths s)
      (a.addData env filename lineno label data o includePaths) := by
  have hflag : ∀ (check : Bool) {x : Except PrsFault (Prs T)} {y : Except PrsFault (Draft T)},
      UpTo .hang Drafted x y →
      UpTo .hang (fun r b => Drafted r.2 b) (x >>= fun s => .ok (check, s)) y := by
    intro check x y hxy
    cases hxy with
    | gaveUp => exact .gaveUp _
    | ok hs => exact .ok hs
    | error e => exact .error e
  unfold addData
  split
  · exact hflag true (addFileToMemory_drafts env filename lineno label _ _ hblock _ _ h)
  · exact hflag true (addStrToMemory_drafts env filename lineno label _ _ _ h)
  · exact hflag true (addHexToMemory_drafts env filename lineno label _ _ _ h)
  · exact hflag false (addLabelToMemory_drafts env filename lineno label _ _ _ h)
  · next hfile hstr hhex hlabel =>
      rw [Draft.addData_other env filename lineno label o includePaths a hfile hstr hhex hlabel]
      exact .ok (h.map (apart_error _ _ _))

end Steps

/-! ## The directive -/

/-- A directive, on a draft. -/
def Draft.parsePreprocData (env : PrsEnv) (filename : FileName) (lineno : UInt32) (line : CStr)
    (includePaths : List CStr) (a : Draft T) : Except PrsFault (Draft T) := do
  match ← dataHead line with
  | none => .ok (a.map (fun p => p.error filename lineno incorrectSpecification))
  | some h => do
      let (line, o, p) ← dataOptions filename lineno (h.line.length + 1) h.next h.line
        ⟨notGiven, notGiven⟩ a.prs
      let label ← dataLabel line h.label
      let data ← onLine (strAt line h.data)
      Draft.addData env filename lineno label data o includePaths ⟨p, a.cells⟩

section Options

variable {filename filename' : FileName} {lineno lineno' : UInt32} {Q : Prs T → Prs T → Prop}

/-- The options are read alike in two states, in each with reports of its own: `Q` is kept by what
is reported about an option. -/
structure OptionsAlike (filename filename' : FileName) (lineno lineno' : UInt32)
    (Q : Prs T → Prs T → Prop) : Prop where
  error : ∀ s s' message, Q s s' →
    Q (s.error filename lineno message) (s'.error filename' lineno' message)
  offset : ∀ s s' numericStr o, Q s s' →
    Q (offsetOption filename lineno numericStr o s).2
      (offsetOption filename' lineno' numericStr o s').2
  size : ∀ s s' numericStr o, Q s s' →
    Q (sizeOption filename lineno numericStr o s).2
      (sizeOption filename' lineno' numericStr o s').2

theorem parsePreprocDataNo_fst (numericStr dataName : CStr) (s s' : Prs T) :
    (parsePreprocDataNo filename lineno numericStr dataName s).1 =
      (parsePreprocDataNo filename' lineno' numericStr dataName s').1 := by
  unfold parsePreprocDataNo
  simp only
  split
  · rfl
  · rfl

theorem offsetOption_fst (numericStr : CStr) (o : DataOptions) (s s' : Prs T) :
    (offsetOption filename lineno numericStr o s).1 =
      (offsetOption filename' lineno' numericStr o s').1 := by
  unfold offsetOption
  simp only
  rw [parsePreprocDataNo_fst]

theorem sizeOption_fst (numericStr : CStr) (o : DataOptions) (s s' : Prs T) :
    (sizeOption filename lineno numericStr o s).1 =
      (sizeOption filename' lineno' numericStr o s').1 := by
  unfold sizeOption
  simp only
  rw [parsePreprocDataNo_fst]

theorem OptionsAlike.offset_eq (hQ : OptionsAlike filename filename' lineno lineno' Q)
    {s s' : Prs T} (numericStr : CStr) (o : DataOptions) (h : Q s s') :
    ∃ o' p p', offsetOption filename lineno numericStr o s = (o', p) ∧
      offsetOption filename' lineno' numericStr o s' = (o', p') ∧ Q p p' := by
  refine ⟨(offsetOption filename lineno numericStr o s).1, _, _, Prod.mk.eta.symm, ?_,
    hQ.offset s s' numericStr o h⟩
  rw [offsetOption_fst numericStr o s s']

theorem OptionsAlike.size_eq (hQ : OptionsAlike filename filename' lineno lineno' Q)
    {s s' : Prs T} (numericStr : CStr) (o : DataOptions) (h : Q s s') :
    ∃ o' p p', sizeOption filename lineno numericStr o s = (o', p) ∧
      sizeOption filename' lineno' numericStr o s' = (o', p') ∧ Q p p' := by
  refine ⟨(sizeOption filename lineno numericStr o s).1, _, _, Prod.mk.eta.symm, ?_,
    hQ.size s s' numericStr o h⟩
  rw [sizeOption_fst numericStr o s s']

/-- **The options depend on the line only.** The induction is on the rounds of the loop. -/
theorem dataOptions_alike (give : PrsFault)
    (hQ : OptionsAlike filename filename' lineno lineno' Q) {fuel token : ℕ} {line : CStr}
    {o : DataOptions} (s s' : Prs T) (h : Q s s') :
    UpTo give (fun r r' => r.1 = r'.1 ∧ r.2.1 = r'.2.1 ∧ Q r.2.2 r'.2.2)
      (dataOptions filename lineno fuel token line o s)
      (dataOptions filename' lineno' fuel token line o s') := by
  induction fuel generalizing token line o s s' with
  | zero => exact .ok ⟨rfl, rfl, h⟩
  | succ fuel ih =>
      rw [dataOptions, dataOptions]
      refine (UpTo.refl give _).bind ?_
      rintro t _ rfl
      cases t with
      | none => exact .ok ⟨rfl, rfl, h⟩
      | some t =>
          refine (UpTo.refl give _).bind ?_
          rintro first _ rfl
          refine UpTo.ite (.ok ⟨rfl, rfl, h⟩) ?_
          refine UpTo.ite ?_ (UpTo.ite ?_ ?_)
          · refine (UpTo.refl give _).bind ?_
            rintro numericStr _ rfl
            rcases hQ.offset_eq numericStr o h with ⟨o', p, p', hp, hp', h'⟩
            rw [hp, hp']
            exact ih p p' h'
          · refine (UpTo.refl give _).bind ?_
            rintro numericStr _ rfl
            rcases hQ.size_eq numericStr o h with ⟨o', p, p', hp, hp', h'⟩
            rw [hp, hp']
            exact ih p p' h'
          · refine (UpTo.refl give _).bind ?_
            rintro token _ rfl
            exact .ok ⟨rfl, rfl, hQ.error _ _ _ h⟩

end Options

section Directive

variable (env : PrsEnv) (filename : FileName) (lineno : UInt32)

theorem parsePreprocDataNo_apart (numericStr dataName : CStr) :
    Apart (fun s : Prs T => (parsePreprocDataNo filename lineno numericStr dataName s).2) := by
  by_cases hc : (strtoull numericStr 10).rest = [] ∨
      (strtoull numericStr 10).rest.head? = some ';'
  · simpa only [parsePreprocDataNo, if_pos hc] using apart_setErange _
  · simpa only [parsePreprocDataNo, if_neg hc] using
      (apart_setErange _).comp (apart_error filename lineno _)

/-- The warning about an offset inside the bytes in use. -/
theorem collide_drafts (n : UInt32) {s : Prs T} {a : Draft T} (h : Drafted s a) :
    Drafted (if n ≠ 0 ∧ n < s.result.memsz then
        s.warn filename lineno ("data collide with previous allocations: ".toList ++
          showNat (s.result.memsz - n).toNat ++ " bytes".toList)
      else s)
      (a.map (fun p => if n ≠ 0 ∧ n < a.prs.result.memsz then
        p.warn filename lineno ("data collide with previous allocations: ".toList ++
          showNat (a.prs.result.memsz - n).toNat ++ " bytes".toList)
      else p)) := by
  rw [show a.prs.result.memsz = s.result.memsz from h.memsz.symm]
  exact h.map (apart_ite _ (apart_warn filename lineno _) apart_id)

/-- The options are read alike in a state and its draft. -/
theorem optionsAlike_drafted (cells : ℕ → UInt8) :
    OptionsAlike (T := T) filename filename lineno lineno (fun s p => Drafted s ⟨p, cells⟩) where
  error s p message h := h.map (apart_error filename lineno message)
  offset := by
    intro s p numericStr o h
    have hmulti := h.map (apart_ite (o.offset = notGiven) apart_id
      (apart_error filename lineno "multiple offset definitions".toList))
    have hno := hmulti.map (parsePreprocDataNo_apart filename lineno numericStr "offset".toList)
    have hcollide := collide_drafts filename lineno
      (parsePreprocDataNo filename lineno numericStr "offset".toList
        (if o.offset = notGiven then s
          else s.error filename lineno "multiple offset definitions".toList)).1 hno
    unfold offsetOption
    simp only
    rw [parsePreprocDataNo_fst numericStr "offset".toList
      (if o.offset = notGiven then p
        else p.error filename lineno "multiple offset definitions".toList)
      (if o.offset = notGiven then s
        else s.error filename lineno "multiple offset definitions".toList)]
    exact hcollide
  size := by
    intro s p numericStr o h
    have hmulti := h.map (apart_ite (o.offset = notGiven) apart_id
      (apart_error filename lineno "multiple size definitions".toList))
    exact hmulti.map (parsePreprocDataNo_apart filename lineno numericStr "size".toList)

/-- **A directive** does what the draft says, whatever the size of the blocks. -/
theorem parsePreprocData_drafts (hblock : 0 < env.memAllocBlockSz) (line : CStr)
    (includePaths : List CStr) {s : Prs T} {a : Draft T} (h : Drafted s a) :
    UpTo .hang Drafted (parsePreprocData env filename lineno line includePaths s)
      (a.parsePreprocData env filename lineno line includePaths) := by
  refine (UpTo.refl _ (dataHead line)).bind ?_
  rintro head _ rfl
  cases head with
  | none => exact .ok (h.map (apart_error _ _ _))
  | some head =>
      refine (dataOptions_alike .hang (optionsAlike_drafted filename lineno a.cells) s a.prs h).bind ?_
      rintro ⟨line', o, s'⟩ ⟨_, _, p⟩ ⟨rfl, rfl, h'⟩
      refine (UpTo.refl _ (dataLabel line' head.label)).bind ?_
      rintro label _ rfl
      refine (UpTo.refl _ (onLine (strAt line' head.data))).bind ?_
      rintro data _ rfl
      have hdata := addData_drafts env filename lineno label hblock data o includePaths h'
      rw [← bind_pure (Draft.addData env filename lineno label data o includePaths _)]
      refine hdata.bind ?_
      rintro ⟨check, s''⟩ b hb
      -- the bytes in use are inside the allocation, so the assertion holds
      have hle : ¬ s''.result.memAlloc < s''.result.memsz :=
        UInt32.not_lt.2 hb.draws.inside
      simp only [hle, decide_false, Bool.and_false, Bool.false_eq_true, if_false]
      exact .ok hb

end Directive

end BvgzVm
