import BvgzVm.Vm.Procedures

set_option autoImplicit false

/-! # Executable images

`write_bvgz_image_direct` and `read_bvgz_image` of `bytecode.c`, and `make_vm` of `vm.c`. An image
is a header of five little-endian numbers, the code and the memory. A stream is the list of its
bytes; reading gives back what is left of it. Reading what was written restores the code, the
memory and the entry (`readBvgzImage_write`).
-/

namespace BvgzVm

open Bytes

variable {σ : Type}

/-- `BVGZ_IMG_MAGIC` -/
def bvgzImgMagic : Nat := 0xB0C5
/-- `BVGZ_IMG_F_EXEC` -/
def bvgzImgFExec : Nat := 0x1
/-- `BVGZ_IMG_F_DEBUG` -/
def bvgzImgFDebug : Nat := 0x2

/-! ## Writing -/

/-- `write_bvgz_image_direct`, on a stream that takes everything; `none` is the result `-1`. An
`fwrite` of no bytes reports no item written, so the code must not be empty. -/
def writeBvgzImageDirect (code mem : List UInt8) (entryLabel : UInt32) (flags : Nat) :
    Option (List UInt8) :=
  if code.length = 0 then none
  else some (toLE 2 bvgzImgMagic ++ (toLE 2 flags ++ (toLE 4 entryLabel.toNat ++
    (toLE 4 code.length ++ (toLE 4 mem.length ++ (code ++ mem))))))

/-! ## Reading -/

/-- `fread(_, n, 1, fp) == 1`: the bytes that are read and what follows them. -/
def fread (n : Nat) (fp : List UInt8) : Option (List UInt8 × List UInt8) :=
  if n ≤ fp.length then some (fp.take n, fp.drop n) else none

/-- `fread` into a number of `w` bytes. -/
def freadNum (w : Nat) (fp : List UInt8) : Option (Nat × List UInt8) := do
  let (bs, fp) ← fread w fp
  some (ofLE bs, fp)

/-- `fread` of a whole segment. -/
def freadSegment (n : UInt32) (fp : List UInt8) : Option (Segment × List UInt8) :=
  if n.toNat ≤ fp.length then
    some (⟨fp.take n.toNat, by
      have := n.toNat_lt
      rw [List.length_take]
      omega⟩, fp.drop n.toNat)
  else none

/-- `make_vm`; `fill` is what `malloc` leaves in the code. -/
def makeVm (fill : Nat → UInt8) (codesz memsz entry : UInt32) (host : σ) : Vm σ :=
  let vm : Vm σ := {
    code := ⟨(List.range codesz.toNat).map fill, by
      rw [List.length_map, List.length_range]
      exact codesz.toNat_lt⟩
    memory := ⟨List.replicate memsz.toNat 0, by
      rw [List.length_replicate]
      exact memsz.toNat_lt⟩
    exceptions := 0
    procedures := []
    iptr := 0
    instns := 0
    assertId := 0
    instnsSinceLastCleanup := 0
    host }
  let (_, vm) := vm.makeProcedure entry
  { vm with iptr := 0xffffffff }

/-- `read_bvgz_image`; `none` is `NULL`. -/
def readBvgzImage (fill : Nat → UInt8) (host : σ) (fp : List UInt8) :
    Option (Vm σ × List UInt8) := do
  let (magic, fp) ← freadNum 2 fp
  if magic ≠ bvgzImgMagic then none
  else do
    let (flags, fp) ← freadNum 2 fp
    if flags &&& bvgzImgFExec = 0 then none
    else do
      let (entryLabel, fp) ← freadNum 4 fp
      let (codesz, fp) ← freadNum 4 fp
      if codesz = 0 then none
      else do
        let (memsz, fp) ← freadNum 4 fp
        let vm := makeVm fill (UInt32.ofNat codesz) (UInt32.ofNat memsz)
          (UInt32.ofNat entryLabel) host
        let (code, fp) ← freadSegment (UInt32.ofNat codesz) fp
        let vm := { vm with code }
        if memsz > 0 then do
          let (memory, fp) ← freadSegment (UInt32.ofNat memsz) fp
          some ({ vm with memory }, fp)
        else some (vm, fp)

/-! ## A new machine -/

/-- The machine starts with one procedure, at the entry if this is inside the code. -/
theorem makeVm_procedures (fill : Nat → UInt8) (codesz memsz entry : UInt32) (host : σ) :
    (makeVm fill codesz memsz entry host).procedures =
      if codesz.toNat ≤ entry.toNat then [] else [newProc entry] := by
  have hlen : ((List.range codesz.toNat).map fill).length = codesz.toNat := by
    rw [List.length_map, List.length_range]
  unfold makeVm Vm.makeProcedure Segment.size
  simp only [hlen]
  split <;> rfl

theorem makeVm_memory_zero (fill : Nat → UInt8) (codesz entry : UInt32) (host : σ) :
    (makeVm fill codesz 0 entry host).memory = ⟨[], by decide⟩ := by
  unfold makeVm Vm.makeProcedure
  simp only
  split <;> rfl

/-! ## Reading what was written -/

theorem freadNum_toLE {w n : Nat} (hn : n < 256 ^ w) (rest : List UInt8) :
    freadNum w (toLE w n ++ rest) = some (n, rest) := by
  have hread : fread w (toLE w n ++ rest) = some (toLE w n, rest) := by
    have hlen : w ≤ (toLE w n ++ rest).length := by
      rw [List.length_append, length_toLE]
      exact Nat.le_add_right _ _
    have htake : (toLE w n ++ rest).take w = toLE w n := List.take_left' (length_toLE w n)
    have hdrop : (toLE w n ++ rest).drop w = rest := List.drop_left' (length_toLE w n)
    rw [fread, if_pos hlen, htake, hdrop]
  rw [freadNum, hread]
  show some (ofLE (toLE w n), rest) = _
  rw [ofLE_toLE_of_lt hn]

theorem freadSegment_append {n : UInt32} (s : Segment) (h : s.size = n.toNat)
    (rest : List UInt8) : freadSegment n (s.bytes ++ rest) = some (s, rest) := by
  have hlen : n.toNat ≤ (s.bytes ++ rest).length := by
    rw [List.length_append, ← h, Segment.size]
    exact Nat.le_add_right _ _
  have htake : (s.bytes ++ rest).take n.toNat = s.bytes := List.take_left' h
  have hdrop : (s.bytes ++ rest).drop n.toNat = rest := List.drop_left' h
  rw [freadSegment, if_pos hlen]
  simp only [htake, hdrop]

/-- **Reading back an image**, whatever follows it in the file. -/
theorem readBvgzImage_write (fill : Nat → UInt8) (host : σ) {code memory : Segment}
    {entryLabel : UInt32} {flags : Nat} {image : List UInt8} (hflags : flags < 2 ^ 16)
    (hexec : flags &&& bvgzImgFExec ≠ 0)
    (h : writeBvgzImageDirect code.bytes memory.bytes entryLabel flags = some image)
    (suffix : List UInt8) :
    readBvgzImage fill host (image ++ suffix) =
      some ({ makeVm fill (UInt32.ofNat code.size) (UInt32.ofNat memory.size) entryLabel host with
        code, memory }, suffix) := by
  have hcode := code.size_lt'
  have hmemory := memory.size_lt'
  have hcodesz : (UInt32.ofNat code.size).toNat = code.size := UInt32.toNat_ofNat_of_lt' hcode
  have hmemsz : (UInt32.ofNat memory.size).toNat = memory.size :=
    UInt32.toNat_ofNat_of_lt' hmemory
  unfold writeBvgzImageDirect at h
  split at h
  · cases h
  · next hne =>
      obtain rfl := Option.some.inj h
      have hmagic : bvgzImgMagic < 256 ^ 2 := by decide
      have hflags' : flags < 256 ^ 2 := by norm_num; omega
      have hsize (s : Segment) : s.bytes.length < 256 ^ 4 := by
        have := s.size_lt
        norm_num
        omega
      have hentry : entryLabel.toNat < 256 ^ 4 := by
        have := entryLabel.toNat_lt
        norm_num
        omega
      rw [readBvgzImage]
      simp only [List.append_assoc, Option.bind_eq_bind]
      -- the header, number by number
      rw [freadNum_toLE hmagic]
      simp only [Option.bind_some]
      rw [if_neg (by simp), freadNum_toLE hflags']
      simp only [Option.bind_some]
      rw [if_neg hexec, freadNum_toLE hentry]
      simp only [Option.bind_some]
      rw [freadNum_toLE (hsize code)]
      simp only [Option.bind_some]
      rw [if_neg hne, freadNum_toLE (hsize memory)]
      simp only [Option.bind_some]
      -- the code and the memory
      rw [← Segment.size, ← Segment.size, freadSegment_append code hcodesz.symm]
      simp only [Option.bind_some, UInt32.ofNat_toNat]
      by_cases hm : memory.size > 0
      · rw [if_pos hm, freadSegment_append memory hmemsz.symm]
        rfl
      · have hempty : memory = ⟨[], by decide⟩ := by
          have hbytes : memory.bytes = [] := by
            rw [← List.length_eq_zero_iff]
            unfold Segment.size at hm
            omega
          cases memory
          simpa using hbytes
        have hzero : UInt32.ofNat memory.size = 0 := by
          rw [hempty]
          rfl
        have hvm := makeVm_memory_zero fill (UInt32.ofNat code.size) entryLabel host
        rw [if_neg hm, hzero, hempty, List.nil_append, ← hvm]

/-! ## What is accepted -/

/-- A reader that goes on does so in the branch that goes on. -/
theorem ite_eq_some_iff {α : Type} {c : Prop} [Decidable c] {x : Option α} {a : α} :
    (if c then none else x) = some a ↔ ¬ c ∧ x = some a := by
  by_cases hc : c
  · simp [hc]
  · simp [hc]

theorem fread_eq_some {n : Nat} {fp bs rest : List UInt8} :
    fread n fp = some (bs, rest) ↔ bs.length = n ∧ fp = bs ++ rest := by
  unfold fread
  constructor
  · intro h
    split at h
    · next hle =>
        obtain ⟨rfl, rfl⟩ := Prod.mk.inj (Option.some.inj h)
        exact ⟨List.length_take_of_le hle, (List.take_append_drop n fp).symm⟩
    · cases h
  · rintro ⟨rfl, rfl⟩
    rw [if_pos (by simp), List.take_left, List.drop_left]

/-- A number is read exactly from its bytes. -/
theorem freadNum_eq_some {w n : Nat} {fp rest : List UInt8} :
    freadNum w fp = some (n, rest) ↔ n < 256 ^ w ∧ fp = toLE w n ++ rest := by
  constructor
  · intro h
    rcases Option.bind_eq_some_iff.1 h with ⟨⟨bs, rest'⟩, hread, h⟩
    obtain ⟨rfl, rfl⟩ := Prod.mk.inj (Option.some.inj h)
    rcases fread_eq_some.1 hread with ⟨rfl, rfl⟩
    exact ⟨ofLE_lt bs, by rw [toLE_ofLE]⟩
  · rintro ⟨hn, rfl⟩
    exact freadNum_toLE hn rest

theorem freadSegment_eq_some {n : UInt32} {fp rest : List UInt8} {s : Segment} :
    freadSegment n fp = some (s, rest) ↔ s.size = n.toNat ∧ fp = s.bytes ++ rest := by
  constructor
  · intro h
    unfold freadSegment at h
    split at h
    · next hle =>
        obtain ⟨rfl, rfl⟩ := Prod.mk.inj (Option.some.inj h)
        exact ⟨List.length_take_of_le hle, (List.take_append_drop n.toNat fp).symm⟩
    · cases h
  · rintro ⟨hsize, rfl⟩
    exact freadSegment_append s hsize rest

/-- The bytes of an image. -/
def imageBytes (code mem : List UInt8) (entryLabel : UInt32) (flags : Nat) : List UInt8 :=
  toLE 2 bvgzImgMagic ++ (toLE 2 flags ++ (toLE 4 entryLabel.toNat ++
    (toLE 4 code.length ++ (toLE 4 mem.length ++ (code ++ mem)))))

theorem writeBvgzImageDirect_eq {code mem : List UInt8} {entryLabel : UInt32} {flags : Nat}
    (h : code ≠ []) :
    writeBvgzImageDirect code mem entryLabel flags =
      some (imageBytes code mem entryLabel flags) := by
  have hlen : code.length ≠ 0 := by simpa using h
  rw [writeBvgzImageDirect, if_neg hlen, imageBytes]

/-- **What is accepted** is an image, and what follows it is left in the stream. -/
theorem readBvgzImage_inv {fill : Nat → UInt8} {host : σ} {fp rest : List UInt8} {vm : Vm σ}
    (h : readBvgzImage fill host fp = some (vm, rest)) :
    ∃ (entryLabel : UInt32) (flags : Nat), flags < 2 ^ 16 ∧ flags &&& bvgzImgFExec ≠ 0 ∧
      vm.code.bytes ≠ [] ∧
      fp = imageBytes vm.code.bytes vm.memory.bytes entryLabel flags ++ rest ∧
      vm.procedures = if vm.code.size ≤ entryLabel.toNat then [] else [newProc entryLabel] := by
  have h32 {n : Nat} (hn : n < 256 ^ 4) : (UInt32.ofNat n).toNat = n :=
    UInt32.toNat_ofNat_of_lt' (by norm_num at hn; exact hn)
  -- the header, number by number
  rcases Option.bind_eq_some_iff.1 h with ⟨⟨magic, fp₁⟩, hmagic, h₁⟩
  rcases (ite_eq_some_iff.1 h₁) with ⟨hm, h₁⟩
  rcases Option.bind_eq_some_iff.1 h₁ with ⟨⟨flags, fp₂⟩, hflags, h₂⟩
  rcases (ite_eq_some_iff.1 h₂) with ⟨hexec, h₂⟩
  rcases Option.bind_eq_some_iff.1 h₂ with ⟨⟨entryLabel, fp₃⟩, hentry, h₃⟩
  rcases Option.bind_eq_some_iff.1 h₃ with ⟨⟨codesz, fp₄⟩, hcodesz, h₄⟩
  rcases (ite_eq_some_iff.1 h₄) with ⟨hzero, h₄⟩
  rcases Option.bind_eq_some_iff.1 h₄ with ⟨⟨memsz, fp₅⟩, hmemsz, h₅⟩
  rcases Option.bind_eq_some_iff.1 h₅ with ⟨⟨code, fp₆⟩, hcode, h₆⟩
  rcases freadNum_eq_some.1 hmagic with ⟨-, rfl⟩
  rcases freadNum_eq_some.1 hflags with ⟨hflagslt, rfl⟩
  rcases freadNum_eq_some.1 hentry with ⟨hentrylt, rfl⟩
  rcases freadNum_eq_some.1 hcodesz with ⟨hcodeszlt, rfl⟩
  rcases freadNum_eq_some.1 hmemsz with ⟨hmemszlt, rfl⟩
  rcases freadSegment_eq_some.1 hcode with ⟨hsize, rfl⟩
  have hbvgz : magic = bvgzImgMagic := not_not.1 hm
  rw [h32 hcodeszlt] at hsize
  have hne : code.bytes ≠ [] := by
    intro hnil
    rw [Segment.size, hnil] at hsize
    exact hzero hsize.symm
  have hprocs : (makeVm fill (UInt32.ofNat codesz) (UInt32.ofNat memsz)
      (UInt32.ofNat entryLabel) host).procedures =
      if code.size ≤ (UInt32.ofNat entryLabel).toNat then []
      else [newProc (UInt32.ofNat entryLabel)] := by
    rw [makeVm_procedures, h32 hcodeszlt, hsize]
  -- the memory is there or empty
  have hmemory : vm.code = code ∧ vm.memory.size = memsz ∧ fp₆ = vm.memory.bytes ++ rest ∧
      vm.procedures = if code.size ≤ (UInt32.ofNat entryLabel).toNat then []
        else [newProc (UInt32.ofNat entryLabel)] := by
    simp only at h₆
    split at h₆
    · rcases Option.bind_eq_some_iff.1 h₆ with ⟨⟨memory, fp₇⟩, hmemory, h₇⟩
      rcases freadSegment_eq_some.1 hmemory with ⟨hsize', rfl⟩
      obtain ⟨rfl, rfl⟩ := Prod.mk.inj (Option.some.inj h₇)
      exact ⟨rfl, hsize'.trans (h32 hmemszlt), rfl, hprocs⟩
    · next hpos =>
        obtain rfl : memsz = 0 := by omega
        obtain ⟨rfl, rfl⟩ := Prod.mk.inj (Option.some.inj h₆)
        have hempty := makeVm_memory_zero fill (UInt32.ofNat codesz) (UInt32.ofNat entryLabel) host
        refine ⟨rfl, ?_, ?_, hprocs⟩
        · show (makeVm fill _ 0 _ host).memory.size = 0
          rw [hempty]
          rfl
        · show fp₆ = (makeVm fill _ 0 _ host).memory.bytes ++ fp₆
          rw [hempty]
          rfl
  rcases hmemory with ⟨hvmcode, hvmsize, rfl, hvmprocs⟩
  refine ⟨UInt32.ofNat entryLabel, flags, by norm_num at hflagslt; exact hflagslt, hexec, ?_, ?_, ?_⟩
  · rw [hvmcode]
    exact hne
  · rw [hvmcode, imageBytes, hbvgz, h32 hentrylt]
    unfold Segment.size at hsize hvmsize
    rw [hsize, hvmsize]
    simp only [List.append_assoc]
  · rw [hvmcode]
    exact hvmprocs

/-- The sizes in a header. -/
def headerSizes (bytes : List UInt8) (codesz memsz : Nat) : Prop :=
  load bytes 8 4 = some codesz ∧ load bytes 12 4 = some memsz

/-- Not the beginning of an executable image: too short for the header or for what the header
announces, another magic, no `BVGZ_IMG_F_EXEC`, or no code. -/
def NoImage (bytes : List UInt8) : Prop :=
  bytes.length < 16 ∨ (∃ magic, load bytes 0 2 = some magic ∧ magic ≠ bvgzImgMagic) ∨
    (∃ flags, load bytes 2 2 = some flags ∧ flags &&& bvgzImgFExec = 0) ∨
    load bytes 8 4 = some 0 ∨
    ∃ codesz memsz, headerSizes bytes codesz memsz ∧ bytes.length < 16 + codesz + memsz

/-- An image is none of this. -/
theorem not_noImage {code memory : Segment} {entryLabel : UInt32} {flags : Nat}
    (hflags : flags < 2 ^ 16) (hexec : flags &&& bvgzImgFExec ≠ 0) (hcode : code.bytes ≠ [])
    (rest : List UInt8) :
    ¬ NoImage (imageBytes code.bytes memory.bytes entryLabel flags ++ rest) := by
  have hsize (s : Segment) : s.bytes.length < 256 ^ 4 := by
    have := s.size_lt
    norm_num
    omega
  have hentry : entryLabel.toNat < 256 ^ 4 := by
    have := entryLabel.toNat_lt
    norm_num
    omega
  -- the image, cut in front of each field of the header
  have hbytes : imageBytes code.bytes memory.bytes entryLabel flags ++ rest =
      [] ++ (toLE 2 bvgzImgMagic ++ (toLE 2 flags ++ (toLE 4 entryLabel.toNat ++
        (toLE 4 code.bytes.length ++ (toLE 4 memory.bytes.length ++
          (code.bytes ++ (memory.bytes ++ rest))))))) := by
    simp only [imageBytes, List.append_assoc, List.nil_append]
  have hmagic : load (imageBytes code.bytes memory.bytes entryLabel flags ++ rest) 0 2 =
      some bvgzImgMagic := by
    rw [hbytes]
    exact load_append_toLE (by decide) [] _
  have hload₂ : load (imageBytes code.bytes memory.bytes entryLabel flags ++ rest) 2 2 =
      some flags := by
    rw [hbytes, List.nil_append]
    exact load_append_toLE (by norm_num; omega) (toLE 2 bvgzImgMagic) _
  have hload₈ : load (imageBytes code.bytes memory.bytes entryLabel flags ++ rest) 8 4 =
      some code.bytes.length := by
    have h := load_append_toLE (hsize code)
      (toLE 2 bvgzImgMagic ++ (toLE 2 flags ++ toLE 4 entryLabel.toNat))
      (toLE 4 memory.bytes.length ++ (code.bytes ++ (memory.bytes ++ rest)))
    simp only [List.append_assoc, List.length_append, length_toLE] at h
    rw [hbytes, List.nil_append]
    exact h
  have hload₁₂ : load (imageBytes code.bytes memory.bytes entryLabel flags ++ rest) 12 4 =
      some memory.bytes.length := by
    have h := load_append_toLE (hsize memory)
      (toLE 2 bvgzImgMagic ++ (toLE 2 flags ++ (toLE 4 entryLabel.toNat ++
        toLE 4 code.bytes.length))) (code.bytes ++ (memory.bytes ++ rest))
    simp only [List.append_assoc, List.length_append, length_toLE] at h
    rw [hbytes, List.nil_append]
    exact h
  have hlen : (imageBytes code.bytes memory.bytes entryLabel flags ++ rest).length =
      16 + code.bytes.length + memory.bytes.length + rest.length := by
    rw [hbytes]
    simp only [List.length_append, List.length_nil, length_toLE]
    omega
  rintro (hshort | ⟨magic, hload, hne⟩ | ⟨flags', hload, hzero⟩ | hload |
    ⟨codesz, memsz, ⟨hload, hload'⟩, hshort⟩)
  · omega
  · rw [hmagic] at hload
    exact hne (Option.some.inj hload).symm
  · rw [hload₂] at hload
    rw [← Option.some.inj hload] at hzero
    exact hexec hzero
  · rw [hload₈] at hload
    exact hcode (List.length_eq_zero_iff.1 (Option.some.inj hload))
  · rw [hload₈] at hload
    rw [hload₁₂] at hload'
    rw [hlen, ← Option.some.inj hload, ← Option.some.inj hload'] at hshort
    omega

/-- **Images.** Reading back what was written restores the machine and leaves what follows the
image; everything that is accepted begins with an image of the machine it becomes; and what is
not the beginning of an executable image is rejected. -/
theorem image_roundTrip (fill : Nat → UInt8) (host : σ) :
    (∀ (code memory : Segment) (entryLabel : UInt32) (flags : Nat) (suffix : List UInt8),
      code.bytes ≠ [] → entryLabel.toNat < code.size → flags < 2 ^ 16 →
      flags &&& bvgzImgFExec ≠ 0 →
      ∃ image vm, writeBvgzImageDirect code.bytes memory.bytes entryLabel flags = some image ∧
        readBvgzImage fill host (image ++ suffix) = some (vm, suffix) ∧
        vm.code = code ∧ vm.memory = memory ∧ vm.procedures = [newProc entryLabel]) ∧
    (∀ (bytes rest : List UInt8) (vm : Vm σ),
      readBvgzImage fill host bytes = some (vm, rest) →
      ∃ (entryLabel : UInt32) (flags : Nat) (image : List UInt8),
        flags < 2 ^ 16 ∧ flags &&& bvgzImgFExec ≠ 0 ∧
        writeBvgzImageDirect vm.code.bytes vm.memory.bytes entryLabel flags = some image ∧
        bytes = image ++ rest ∧
        vm.procedures = if entryLabel.toNat < vm.code.size then [newProc entryLabel] else []) ∧
    ∀ bytes : List UInt8, NoImage bytes → readBvgzImage fill host bytes = none := by
  refine ⟨?_, ?_, ?_⟩
  · intro code memory entryLabel flags suffix hcode hentry hflags hexec
    have hwrite : writeBvgzImageDirect code.bytes memory.bytes entryLabel flags = some
        (imageBytes code.bytes memory.bytes entryLabel flags) := writeBvgzImageDirect_eq hcode
    refine ⟨_, _, hwrite, readBvgzImage_write fill host hflags hexec hwrite suffix, rfl, rfl, ?_⟩
    have hcodesz : (UInt32.ofNat code.size).toNat = code.size :=
      UInt32.toNat_ofNat_of_lt' code.size_lt'
    show (makeVm fill _ _ entryLabel host).procedures = _
    rw [makeVm_procedures, hcodesz, if_neg (by omega)]
  · intro bytes rest vm h
    rcases readBvgzImage_inv h with ⟨entryLabel, flags, hflags, hexec, hcode, hbytes, hprocs⟩
    refine ⟨entryLabel, flags, _, hflags, hexec, writeBvgzImageDirect_eq hcode, hbytes, ?_⟩
    rw [hprocs]
    by_cases hentry : entryLabel.toNat < vm.code.size
    · rw [if_pos hentry, if_neg (by omega)]
    · rw [if_neg hentry, if_pos (by omega)]
  · intro bytes hno
    cases hread : readBvgzImage fill host bytes with
    | none => rfl
    | some r =>
        -- what is accepted begins with an image
        rcases readBvgzImage_inv hread with ⟨entryLabel, flags, hflags, hexec, hcode, hbytes, -⟩
        rw [hbytes] at hno
        exact absurd hno (not_noImage hflags hexec hcode r.2)

end BvgzVm
