import BvgzVm.Asm.Parser
import Mathlib.Data.String.Basic

set_option autoImplicit false

/-! # The look-up of an instruction

`parse_instn` looks for a mnemonic with `bsearch`, walks back to the first row with the name and
forward to the row with the number of operands. The forward walk ends at the first row with
another name; behind the last row of the table there is none, and the name is compared with a null
pointer (`lookup_iff`).
-/

namespace BvgzVm

open CLib Fallible

variable {T : InstnTable}

/-! ## Sorted lists of names -/

section Sorted

variable {names : List CStr} {name : CStr}

theorem getElem?_le (hs : names.Pairwise (· ≤ ·)) {i j : Nat} (hij : i ≤ j) {a b : CStr}
    (ha : names[i]? = some a) (hb : names[j]? = some b) : a ≤ b := by
  obtain ⟨hi, rfl⟩ := List.getElem?_eq_some_iff.1 ha
  obtain ⟨hj, rfl⟩ := List.getElem?_eq_some_iff.1 hb
  rcases Nat.lt_or_eq_of_le hij with hlt | rfl
  · exact List.pairwise_iff_getElem.1 hs i j hi hj hlt
  · exact le_rfl

/-- **`bsearch` finds a row with the name, if there is one.** The names before `l` are less than
the key, and those from `u` on are greater. -/
theorem bsearchLoop_spec (hs : names.Pairwise (· ≤ ·)) {fuel l u : Nat} (hu : u ≤ names.length)
    (hfuel : u - l < fuel) (hbelow : ∀ i a, names[i]? = some a → i < l → a < name)
    (habove : ∀ i a, names[i]? = some a → u ≤ i → name < a) :
    match bsearchLoop names name fuel l u with
    | none => name ∉ names
    | some k => names[k]? = some name := by
  induction fuel generalizing l u with
  | zero => exact absurd hfuel (Nat.not_lt_zero _)
  | succ fuel ih =>
      rw [bsearchLoop]
      by_cases hle : u ≤ l
      · rw [if_pos hle]
        intro hmem
        obtain ⟨i, hi⟩ := List.getElem?_of_mem hmem
        rcases Nat.lt_or_ge i l with hlt | hge
        · exact lt_irrefl _ (hbelow i name hi hlt)
        · exact lt_irrefl _ (habove i name hi (hle.trans hge))
      · rw [if_neg hle]
        have hmid : (l + u) / 2 < names.length := by omega
        have hget := List.getElem?_eq_getElem hmid
        simp only [hget]
        by_cases hlt : name < names[(l + u) / 2]
        · rw [if_pos hlt]
          refine ih (by omega) (by omega) hbelow ?_
          intro i a hi hge
          exact hlt.trans_le (getElem?_le hs hge hget hi)
        · rw [if_neg hlt]
          by_cases hgt : names[(l + u) / 2] < name
          · rw [if_pos hgt]
            refine ih hu (by omega) ?_ habove
            intro i a hi hless
            exact (getElem?_le hs (Nat.le_of_lt_succ hless) hi hget).trans_lt hgt
          · rw [if_neg hgt]
            show names[(l + u) / 2]? = some name
            rw [hget, le_antisymm (not_lt.1 hlt) (not_lt.1 hgt)]

theorem bsearch_spec (hs : names.Pairwise (· ≤ ·)) :
    match bsearch names name with
    | none => name ∉ names
    | some k => names[k]? = some name := by
  refine bsearchLoop_spec hs le_rfl (by omega) ?_ ?_
  · intro i a _ hlt
    exact absurd hlt (Nat.not_lt_zero i)
  · intro i a hi hge
    obtain ⟨hlt, -⟩ := List.getElem?_eq_some_iff.1 hi
    exact absurd hge (not_le.2 hlt)

/-- The backward walk ends at a row with the name, and the rows before it have lesser names. -/
theorem firstWithName_spec (hs : names.Pairwise (· ≤ ·)) {k : Nat}
    (hk : names[k]? = some name) :
    names[firstWithName names name k]? = some name ∧
      ∀ i a, names[i]? = some a → i < firstWithName names name k → a < name := by
  induction k with
  | zero => exact ⟨hk, fun i a _ hlt => absurd hlt (Nat.not_lt_zero i)⟩
  | succ k ih =>
      rw [firstWithName]
      by_cases hprev : names[k]? = some name
      · rw [if_pos hprev]
        exact ih hprev
      · rw [if_neg hprev]
        refine ⟨hk, ?_⟩
        intro i a hi hlt
        have hle : a ≤ name := getElem?_le hs hlt.le hi hk
        refine lt_of_le_of_ne hle ?_
        rintro rfl
        -- the row before `k + 1` is between two rows with the name
        obtain ⟨hin, -⟩ := List.getElem?_eq_some_iff.1 hk
        have hget := List.getElem?_eq_getElem (Nat.lt_of_succ_lt hin)
        refine hprev (hget.trans (congrArg some (le_antisymm ?_ ?_)))
        · exact getElem?_le hs (Nat.le_succ k) hget hk
        · exact getElem?_le hs (Nat.le_of_lt_succ hlt) hi hget

/-- **The backward walk ends at the same row**, whichever row with the name it has begun at. -/
theorem firstWithName_eq (hs : names.Pairwise (· ≤ ·)) {k k' : Nat}
    (hk : names[k]? = some name) (hk' : names[k']? = some name) :
    firstWithName names name k = firstWithName names name k' := by
  rcases firstWithName_spec hs hk with ⟨hget, hbelow⟩
  rcases firstWithName_spec hs hk' with ⟨hget', hbelow'⟩
  apply Nat.le_antisymm
  · refine Nat.le_of_not_lt fun hlt => ?_
    exact lt_irrefl _ (hbelow _ _ hget' hlt)
  · refine Nat.le_of_not_lt fun hlt => ?_
    exact lt_irrefl _ (hbelow' _ _ hget hlt)

end Sorted

/-! ## The table -/

/-- The rows as they are looked for. -/
def InstnTable.names (T : InstnTable) : List CStr := T.entries.map (fun d => d.name.toList)

theorem map_assignOpcodes {H α : Type} (f : InstnDef H → α)
    (hf : ∀ d n, f { d with opcode := n } = f d) (n : Nat) (l : List (InstnDef H)) :
    (assignOpcodes n l).map f = l.map f := by
  induction l generalizing n with
  | nil => rfl
  | cons d t ih => rw [assignOpcodes, List.map_cons, List.map_cons, ih, hf]

theorem InstnTable.names_sorted (T : InstnTable) : T.names.Pairwise (· ≤ ·) := by
  rw [InstnTable.names, InstnTable.entries, map_assignOpcodes _ (fun _ _ => rfl),
    List.pairwise_map]
  exact T.ordered.imp String.le_iff_toList_le.1

/-- The names and the numbers of operands are those of `instn_defs.inc`. -/
theorem InstnTable.map_perm (T : InstnTable) {α : Type} (f : InstnDef Op → α)
    (hf : ∀ d n, f { d with opcode := n } = f d) :
    (T.entries.map f).Perm (instnDefsInc.map f) := by
  rw [InstnTable.entries, map_assignOpcodes f hf]
  exact T.perm.map f

/-- A row is found by its name and its number of operands. -/
theorem InstnTable.eq_of_name (T : InstnTable) {d d' : InstnDef Op} (hd : d ∈ T.entries)
    (hd' : d' ∈ T.entries) (hname : d.name = d'.name) (hargs : d.argCount = d'.argCount) :
    d = d' := by
  have hnodup : (T.entries.map (fun d => (d.name, d.argCount))).Nodup := by
    rw [(T.map_perm _ (fun _ _ => rfl)).nodup_iff]
    decide
  exact List.inj_on_of_nodup_map hnodup hd hd' (Prod.ext hname hargs)

/-- The greatest name, with its numbers of operands. -/
theorem InstnTable.last_name (T : InstnTable) :
    (∀ d ∈ T.entries, d.name.toList ≤ "xor".toList) ∧
      ∀ n, (∃ d ∈ T.entries, d.name.toList = "xor".toList ∧ d.argCount = n) ↔ n = 2 ∨ n = 3 := by
  constructor
  · intro d hd
    have hmem := List.mem_map_of_mem (f := fun d : InstnDef Op => d.name) hd
    rw [(T.map_perm _ (fun _ _ => rfl)).mem_iff] at hmem
    revert hmem
    generalize d.name = name
    revert name
    decide
  · intro n
    have hmem : ("xor", n) ∈ T.entries.map (fun d => (d.name, d.argCount)) ↔ n = 2 ∨ n = 3 := by
      rw [(T.map_perm _ (fun _ _ => rfl)).mem_iff]
      simp [instnDefsInc, opf, or_comm]
    rw [← hmem, List.mem_map]
    refine exists_congr fun d => and_congr_right fun _ => ?_
    rw [String.toList_inj, Prod.mk.injEq]

/-! ## The forward walk -/

section Rows

variable {env : PrsEnv} {filename : FileName} {lineno : UInt32} {name : CStr}
  {tokens : List CStr} {s : Prs T}

/-- A row with the name and the number of operands. -/
def Selects (name : CStr) (n : Nat) (d : InstnDef Op) : Prop :=
  d.name.toList = name ∧ d.argCount = n

/-- The walk passes the rows with the name up to the first that is selected. -/
theorem selectInstn_of_selects {rows : List {d : InstnDef Op // d ∈ T.entries}}
    {d : {d : InstnDef Op // d ∈ T.entries}} (hd : d ∈ rows)
    (hselects : Selects name tokens.length d.1)
    (hs : (rows.map (fun r => r.1.name.toList)).Pairwise (· ≤ ·))
    (hge : ∀ r ∈ rows, name ≤ r.1.name.toList) :
    selectInstn env filename lineno name tokens rows s =
      selectInstn env filename lineno name tokens [d] s := by
  induction rows with
  | nil => cases hd
  | cons fmt rows ih =>
      -- the first row is not before the name and not behind the row that is selected
      have hname : fmt.1.name.toList = name := by
        refine le_antisymm ?_ (hge fmt List.mem_cons_self)
        rcases List.mem_cons.1 hd with rfl | hrest
        · exact hselects.1.le
        · rw [← hselects.1]
          exact List.rel_of_pairwise_cons hs (List.mem_map_of_mem hrest)
      by_cases hargs : fmt.1.argCount = tokens.length
      · have heq : d = fmt := by
          refine Subtype.ext (T.eq_of_name d.2 fmt.2 ?_ (hselects.2.trans hargs.symm))
          exact String.toList_inj.1 (hselects.1.trans hname.symm)
        rw [heq, selectInstn, selectInstn, if_neg (not_not.2 hname.symm), dif_pos hargs,
          if_neg (not_not.2 hname.symm), dif_pos hargs]
      · have hrest : d ∈ rows := by
          rcases List.mem_cons.1 hd with rfl | hrest
          · exact absurd hselects.2 hargs
          · exact hrest
        rw [selectInstn, if_neg (not_not.2 hname.symm), dif_neg hargs]
        exact ih hrest hs.of_cons fun r hr => hge r (List.mem_cons_of_mem _ hr)

/-- Where no row is selected, the walk ends with an error at a row with another name, or behind
the last row. -/
theorem selectInstn_of_none {rows : List {d : InstnDef Op // d ∈ T.entries}}
    (hnone : ∀ r ∈ rows, ¬ Selects name tokens.length r.1) :
    ((∀ r ∈ rows, r.1.name.toList = name) ∧
        selectInstn env filename lineno name tokens rows s = .error .nullName) ∨
      (∃ r ∈ rows, r.1.name.toList ≠ name) ∧
        ∃ text, selectInstn env filename lineno name tokens rows s =
          .ok (none, s.error filename lineno text) := by
  induction rows with
  | nil => exact Or.inl ⟨fun r hr => absurd hr List.not_mem_nil, rfl⟩
  | cons fmt rows ih =>
      by_cases hname : fmt.1.name.toList = name
      · have hargs : ¬ fmt.1.argCount = tokens.length :=
          fun h => hnone fmt List.mem_cons_self ⟨hname, h⟩
        rw [selectInstn, if_neg (not_not.2 hname.symm), dif_neg hargs]
        rcases ih fun r hr => hnone r (List.mem_cons_of_mem _ hr) with
          ⟨hall, hfault⟩ | ⟨⟨r, hr, hne⟩, herror⟩
        · exact Or.inl ⟨List.forall_mem_cons.2 ⟨hname, hall⟩, hfault⟩
        · exact Or.inr ⟨⟨r, List.mem_cons_of_mem _ hr, hne⟩, herror⟩
      · rw [selectInstn, if_pos (Ne.symm hname)]
        exact Or.inr ⟨⟨fmt, List.mem_cons_self, hname⟩, _, rfl⟩

/-- The operands are not compared with the names of the table. -/
theorem parseArgs_error {fmt : InstnDef Op} {parsed : List PrsArg} {e : PrsFault}
    (h : parseArgs env filename lineno fmt name parsed tokens s = .error e) : e = .freeUninit := by
  have hdestroy : ∀ {n : Nat} {as : List PrsArg} {s : Prs T} {e : PrsFault},
      destroyInstn env n as s = .error e → e = .freeUninit := by
    intro n as s e h
    unfold destroyInstn at h
    split at h
    · exact (Except.error.inj h).symm
    · cases h
  induction tokens generalizing parsed s with
  | nil => cases h
  | cons token tokens ih =>
      rw [parseArgs] at h
      cases hparse : parseArg filename lineno token parsed.length s with
      | mk a s' =>
          rw [hparse] at h
          cases a with
          | none =>
              rcases bind_eq_error.1 h with herror | ⟨_, -, herror⟩
              · exact hdestroy herror
              · cases herror
          | some a =>
              simp only at h
              split at h
              · rcases bind_eq_error.1 h with herror | ⟨_, -, herror⟩
                · exact hdestroy herror
                · cases herror
              · rcases bind_eq_error.1 h with herror | ⟨_, -, herror⟩
                · exact ih herror
                · cases herror

/-- The faults of the forward walk. -/
theorem selectInstn_error {rows : List {d : InstnDef Op // d ∈ T.entries}} {e : PrsFault}
    (h : selectInstn env filename lineno name tokens rows s = .error e) :
    e = .nullName ∨ e = .freeUninit := by
  induction rows with
  | nil => exact Or.inl (Except.error.inj h).symm
  | cons fmt rows ih =>
      rw [selectInstn] at h
      split at h
      · cases h
      · split at h
        · rcases bind_eq_error.1 h with herror | ⟨⟨as, s₁⟩, -, herror⟩
          · exact Or.inr (parseArgs_error herror)
          · cases as with
            | none => cases herror
            | some as => cases herror
        · exact ih h

theorem parseInstn_error {e : PrsFault}
    (h : parseInstn env filename lineno name tokens s = .error e) :
    e = .nullName ∨ e = .freeUninit := by
  unfold parseInstn at h
  simp only at h
  split at h
  · cases h
  · exact selectInstn_error h

/-- The row that is selected is used for the instruction. -/
theorem selectInstn_row {d : {d : InstnDef Op // d ∈ T.entries}}
    (hselects : Selects name tokens.length d.1) :
    selectInstn env filename lineno name tokens [d] s ≠ .error .nullName ∧
      ∀ instn s', selectInstn env filename lineno name tokens [d] s = .ok (some instn, s') →
        instn.instn = d.1 := by
  rw [selectInstn, if_neg (not_not.2 hselects.1.symm), dif_pos hselects.2]
  constructor
  · intro h
    rcases bind_eq_error.1 h with herror | ⟨⟨as, s₁⟩, -, herror⟩
    · cases parseArgs_error herror
    · cases as with
      | none => cases herror
      | some as => cases herror
  · intro instn s' h
    rcases bind_eq_ok.1 h with ⟨⟨as, s₁⟩, -, h⟩
    cases as with
    | none => cases h
    | some as =>
        cases h
        rfl

end Rows

/-! ## The look-up -/

section Lookup

variable (env : PrsEnv) (filename : FileName) (lineno : UInt32) (name : CStr)
  (tokens : List CStr) (s : Prs T)

/-- `parse_instn` behind the call of `bsearch`, which has found row `k`. -/
def selectFrom (k : Nat) : Except PrsFault (Option (PrsInstn T) × Prs T) :=
  selectInstn env filename lineno name tokens
    (T.entries.attach.drop (firstWithName T.names name k)) s

/-- The name is not compared with the null pointer behind the table. The row with the name and
the number of operands is the definition of the instruction, whichever row with the name
`bsearch` has found; without such a row there is one error and no instruction. -/
def LookupLaw : Prop :=
  let run := parseInstn env filename lineno name tokens s
  (∀ k, T.names[k]? = some name → selectFrom env filename lineno name tokens s k = run) ∧
    run ≠ .error .nullName ∧
    (∀ d : {d : InstnDef Op // d ∈ T.entries}, Selects name tokens.length d.1 →
      run = selectInstn env filename lineno name tokens [d] s ∧
        ∀ instn s', run = .ok (some instn, s') → instn.instn = d.1) ∧
    ((¬ ∃ d ∈ T.entries, Selects name tokens.length d) →
      ∃ text, run = .ok (none, s.error filename lineno text))

end Lookup

section Lookup

variable {env : PrsEnv} {filename : FileName} {lineno : UInt32} {name : CStr}
  {tokens : List CStr} {s : Prs T}

/-- The rows that are walked over, from the first with the name on. -/
theorem rows_from {k : Nat} (hk : T.names[k]? = some name) :
    let rows := T.entries.attach.drop (firstWithName T.names name k)
    (rows.map (fun r => r.1.name.toList)).Pairwise (· ≤ ·) ∧
      (∀ r ∈ rows, name ≤ r.1.name.toList) ∧
      ∀ d : {d : InstnDef Op // d ∈ T.entries}, d ∈ rows ∨ d.1.name.toList < name := by
  intro rows
  rcases firstWithName_spec T.names_sorted hk with ⟨hfirst, hbelow⟩
  have hnames : T.entries.attach.map (fun r => r.1.name.toList) = T.names := by
    exact List.attach_map_val (l := T.entries) (f := fun d => d.name.toList)
  have hget : ∀ {i : Nat} {r : {d : InstnDef Op // d ∈ T.entries}},
      T.entries.attach[i]? = some r → T.names[i]? = some r.1.name.toList := by
    intro i r hi
    rw [← hnames, List.getElem?_map, hi]
    rfl
  refine ⟨?_, ?_, ?_⟩
  · rw [List.map_drop, hnames]
    exact T.names_sorted.drop
  · intro r hr
    obtain ⟨i, hi⟩ := List.getElem?_of_mem hr
    rw [List.getElem?_drop] at hi
    exact getElem?_le T.names_sorted (Nat.le_add_right _ i) hfirst (hget hi)
  · intro d
    obtain ⟨i, hi⟩ := List.getElem?_of_mem (List.mem_attach T.entries d)
    rcases Nat.lt_or_ge i (firstWithName T.names name k) with hlt | hge
    · exact Or.inr (hbelow i _ (hget hi) hlt)
    · refine Or.inl (List.mem_of_getElem? (i := i - firstWithName T.names name k) ?_)
      rw [List.getElem?_drop, Nat.add_sub_cancel' hge, hi]

/-- It does not matter which row with the name is found. -/
theorem selectFrom_eq {k : Nat} (hk : T.names[k]? = some name) :
    selectFrom env filename lineno name tokens s k =
      parseInstn env filename lineno name tokens s := by
  have hfound := @bsearch_spec T.names name T.names_sorted
  unfold parseInstn
  simp only
  rw [← InstnTable.names]
  cases hsearch : bsearch T.names name with
  | none =>
      rw [hsearch] at hfound
      exact absurd (List.mem_of_getElem? hk) hfound
  | some k' =>
      rw [hsearch] at hfound
      simp only
      rw [selectFrom, firstWithName_eq T.names_sorted hk hfound]

theorem Selects.unique {d d' : {d : InstnDef Op // d ∈ T.entries}} {n : Nat}
    (h : Selects name n d.1) (h' : Selects name n d'.1) : d = d' := by
  refine Subtype.ext (T.eq_of_name d.2 d'.2 ?_ (h.2.trans h'.2.symm))
  exact String.toList_inj.1 (h.1.trans h'.1.symm)

/-- **How the look-up ends**: with the row for the name and the number of operands, with an error,
or with the null pointer behind the rows of the greatest name. -/
theorem parseInstn_cases (env : PrsEnv) (filename : FileName) (lineno : UInt32) (name : CStr)
    (tokens : List CStr) (s : Prs T) :
    (∃ d : {d : InstnDef Op // d ∈ T.entries}, Selects name tokens.length d.1 ∧
        parseInstn env filename lineno name tokens s =
          selectInstn env filename lineno name tokens [d] s) ∨
      (¬ ∃ d ∈ T.entries, Selects name tokens.length d) ∧
        ((name = "xor".toList ∧
            parseInstn env filename lineno name tokens s = .error .nullName) ∨
          name ≠ "xor".toList ∧ ∃ text,
            parseInstn env filename lineno name tokens s =
              .ok (none, s.error filename lineno text)) := by
  obtain ⟨last, hlast, hxor, -⟩ := (T.last_name.2 2).2 (Or.inl rfl)
  have hfound := @bsearch_spec T.names name T.names_sorted
  cases hsearch : bsearch T.names name with
  | none =>
      rw [hsearch] at hfound
      have hnone : ∀ d ∈ T.entries, d.name.toList ≠ name := by
        rintro d hd rfl
        exact hfound (List.mem_map_of_mem hd)
      refine Or.inr ⟨?_, Or.inr ⟨?_, "unknown instn: [".toList ++ name ++ [']'], ?_⟩⟩
      · rintro ⟨d, hd, hselects⟩
        exact hnone d hd hselects.1
      · rintro rfl
        exact hnone last hlast hxor
      · unfold parseInstn
        simp only
        rw [← InstnTable.names, hsearch]
  | some k =>
      rw [hsearch] at hfound
      have hk : T.names[k]? = some name := hfound
      have hrun := @selectFrom_eq T env filename lineno name tokens s k hk
      rcases rows_from (T := T) hk with ⟨hsorted, hge, hrows⟩
      rw [← hrun, selectFrom]
      by_cases hsome : ∃ d ∈ T.entries, Selects name tokens.length d
      · rcases hsome with ⟨d, hmem, hd⟩
        have hrow : ⟨d, hmem⟩ ∈ T.entries.attach.drop (firstWithName T.names name k) :=
          (hrows ⟨d, hmem⟩).resolve_right (not_lt.2 hd.1.ge)
        exact Or.inl ⟨⟨d, hmem⟩, hd, selectInstn_of_selects hrow hd hsorted hge⟩
      · refine Or.inr ⟨hsome, ?_⟩
        have hnone : ∀ r ∈ T.entries.attach.drop (firstWithName T.names name k),
            ¬ Selects name tokens.length r.1 := fun r _ hr => hsome ⟨r.1, r.2, hr⟩
        rcases selectInstn_of_none hnone with ⟨hall, hfault⟩ | ⟨⟨r, hr, hne⟩, text, herror⟩
        · -- the last row has the name, which is then the greatest of the table
          refine Or.inl ⟨?_, hfault⟩
          rcases hrows ⟨last, hlast⟩ with hmem | hlt
          · exact (hall _ hmem).symm.trans hxor
          · obtain ⟨d', hd', hd'name⟩ := List.mem_map.1 (List.mem_of_getElem? hk)
            rw [← hd'name, hxor] at hlt
            exact absurd (T.last_name.1 d' hd') (not_le.2 hlt)
        · refine Or.inr ⟨?_, text, herror⟩
          rintro rfl
          exact absurd (le_antisymm (T.last_name.1 r.1 r.2) (hge r hr)) hne

/-- **An instruction is looked up in the table just when** the mnemonic is not the greatest of its
names, or there is a row with it and the number of operands. -/
theorem lookup_iff (env : PrsEnv) (filename : FileName) (lineno : UInt32) (name : CStr)
    (tokens : List CStr) (s : Prs T) :
    LookupLaw env filename lineno name tokens s ↔
      (name = "xor".toList → tokens.length = 2 ∨ tokens.length = 3) := by
  have hsame : ∀ k, T.names[k]? = some name → selectFrom env filename lineno name tokens s k =
      parseInstn env filename lineno name tokens s := fun k hk => selectFrom_eq hk
  rcases parseInstn_cases env filename lineno name tokens s with
    ⟨d, hd, hrun⟩ | ⟨hnone, ⟨hname, hrun⟩ | ⟨hname, text, hrun⟩⟩
  · refine iff_of_true ⟨hsame, ?_, ?_, fun h => absurd ⟨d.1, d.2, hd⟩ h⟩ ?_
    · rw [hrun]
      exact (selectInstn_row hd).1
    · intro d' hd'
      obtain rfl := hd'.unique hd
      refine ⟨hrun, ?_⟩
      rw [hrun]
      exact (selectInstn_row hd).2
    · rintro rfl
      exact (T.last_name.2 tokens.length).1 ⟨d.1, d.2, hd⟩
  · refine iff_of_false (fun hlaw => hlaw.2.1 hrun) fun hargs => hnone ?_
    rw [hname]
    exact (T.last_name.2 tokens.length).2 (hargs hname)
  · refine iff_of_true ⟨hsame, ?_, ?_, fun _ => ⟨text, hrun⟩⟩ fun h => absurd h hname
    · rw [hrun]
      exact fun h => by cases h
    · intro d hd
      exact absurd ⟨d.1, d.2, hd⟩ hnone

end Lookup

/-- A file system without files. -/
def noFiles : PrsEnv where
  stat _ := false
  fopen _ := none
  memAllocBlockSz := 4096
  freshType _ := 0

/-- `xor` with one operand is compared with the null pointer behind the table. -/
theorem lookup_xor : ¬ LookupLaw noFiles ⟨0, []⟩ 1 "xor".toList ["x".toList]
    (initParse false : Prs stableTable) := by
  intro hlaw
  have hfault : parseInstn noFiles ⟨0, []⟩ 1 "xor".toList ["x".toList]
      (initParse false : Prs stableTable) = .error .nullName := by rfl
  exact hlaw.2.1 hfault

end BvgzVm
