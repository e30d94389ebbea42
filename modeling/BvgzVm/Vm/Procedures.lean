import BvgzVm.Lib.Steps
import BvgzVm.Util.List
import BvgzVm.Vm.State

set_option autoImplicit false

/-! # The list of runnable procedures

`make_procedure` and `delete_current_procedure` of `vm.c` and `sys_yield`, twice: on the doubly
linked list they really work on (`Sched`), and on the list of procedures of `Vm`. The linked list
represents a first-in-first-out queue through every sequence of these operations
(`sched_refines_queue`), which is what allows the interpreter to be modelled over `Vm`.
-/

namespace BvgzVm

open DList

/-- The procedure `make_procedure` fills in. -/
def newProc (iptr : UInt32) : Proc := ⟨iptr, [], 0, 0⟩

/-! ## On the linked list -/

/-- The part of `vm_t` the list functions use, with the heap its nodes live in. The `proc_t` a
node points to belongs to this node alone and is kept in it. -/
structure Sched where
  codesz : UInt32
  exceptions : UInt32
  heap : Heap Proc
  procedures : Option Nat

namespace Sched

/-- `make_procedure`; `a` is the address `malloc` returns for the node. -/
def makeProcedure (fuel : Nat) (iptr : UInt32) (a : Nat) (vm : Sched) : Option Sched :=
  if vm.codesz ≤ iptr then
    some { vm with exceptions := vm.exceptions ||| vmEBadInstnPointer }
  else
    let h := listMakeNode vm.heap a (newProc iptr)
    match vm.procedures with
    | none => some { vm with heap := h, procedures := some a }
    | some p => do
        let tail ← listTail h fuel p
        let (h, _) ← listAppend h (some tail) a
        some { vm with heap := h }

/-- `delete_current_procedure` -/
def deleteCurrentProcedure (vm : Sched) : Option Sched := do
  let current ← vm.procedures
  let n ← vm.heap current
  let h ← listDestroyNode vm.heap current
  some { vm with heap := h, procedures := n.next }

/-- `sys_yield` -/
def sysYield (fuel : Nat) (vm : Sched) : Option Sched := do
  let self ← vm.procedures
  let n ← vm.heap self
  match n.next with
  | none => some vm
  | some nx => do
      let h ← listUnlink vm.heap self
      let tail ← listTail h fuel nx
      let (h, _) ← listAppend h (some tail) self
      some { vm with heap := h, procedures := some nx }

end Sched

/-- The operations on the list, with what `malloc` returns. -/
inductive SchedOp
  | makeProcedure (iptr : UInt32) (a : Nat)
  | sysYield
  | deleteCurrentProcedure
  deriving DecidableEq, Repr

/-- An operation on the linked list. It fails where the C code would follow a bad pointer, or
where `list_tail` does not come to an end within `fuel` nodes. -/
def schedStep (fuel : Nat) : SchedOp → Sched → Option Sched
  | .makeProcedure iptr a, vm => vm.makeProcedure fuel iptr a
  | .sysYield, vm => vm.sysYield fuel
  | .deleteCurrentProcedure, vm => vm.deleteCurrentProcedure

/-! ## The queue -/

/-- The queue of procedures, each with the address of its node. -/
abbrev Queue := List (Nat × Proc)

/-- What the operations are for: `make_procedure` enqueues at the tail, `sys_yield` moves the
head to the tail, `delete_current_procedure` removes the head. `malloc` returns an address that
is not in use, and the last two are called by a running procedure. -/
def queueStep (codesz : UInt32) : SchedOp → Queue → Option Queue
  | .makeProcedure iptr a, q =>
      if codesz ≤ iptr then some q
      else if a ∈ addrs q then none
      else some (q ++ [(a, newProc iptr)])
  | .sysYield, c :: q => some (q ++ [c])
  | .sysYield, [] => none
  | .deleteCurrentProcedure, _ :: q => some q
  | .deleteCurrentProcedure, [] => none

/-- The linked list is well formed, its nodes are the queue `q` in order, and no other node is
allocated. -/
structure Represents (vm : Sched) (q : Queue) : Prop where
  isList : IsList vm.heap vm.procedures q
  only : ∀ b ∉ addrs q, vm.heap b = none

theorem represents_nil (codesz exceptions : UInt32) :
    Represents ⟨codesz, exceptions, fun _ => none, none⟩ [] :=
  ⟨⟨rfl, trivial, List.nodup_nil⟩, fun _ _ => rfl⟩

/-! ## One operation -/

/-- A list with at least one cell, seen from its last cell. -/
theorem exists_last (c : Nat × Proc) (t : Queue) :
    ∃ pre l d, c :: t = pre ++ [(l, d)] ∧ lastOr (some c.1) t = some l := by
  obtain ⟨pre, ⟨l, d⟩, heq⟩ : ∃ pre x, c :: t = pre ++ [x] :=
    ⟨(c :: t).dropLast, (c :: t).getLast (by simp), (List.dropLast_append_getLast (by simp)).symm⟩
  refine ⟨pre, l, d, heq, ?_⟩
  have hlast : lastOr none (c :: t) = lastOr none (pre ++ [(l, d)]) := by rw [heq]
  rw [lastOr_append] at hlast
  exact hlast

/-- **Walking to the tail and appending** puts a node that is outside the list at its end. -/
theorem append_tail_spec {h : Heap Proc} {c : Nat × Proc} {t : Queue} {m fuel : Nat} {dm : Proc}
    {pm nm : Option Nat} (hc : Chain h none (c :: t) none) (hnd : (addrs (c :: t)).Nodup)
    (hm : m ∉ addrs (c :: t)) (hnode : h m = some ⟨pm, nm, dm⟩) (hfuel : t.length < fuel) :
    ∃ tail h', listTail h fuel c.1 = some tail ∧ listAppend h (some tail) m = some (h', tail) ∧
      Chain h' none (c :: t ++ [(m, dm)]) none ∧
      ∀ b ∉ addrs (c :: t), b ≠ m → h' b = h b := by
  obtain ⟨pre, l, d, heq, hlast⟩ := exists_last c t
  have htail : listTail h fuel c.1 = some l := by
    rw [listTail_eq hc fuel hfuel, hlast]
  rw [heq] at hc hnd hm ⊢
  obtain ⟨h', happ, hchain, hframe⟩ := listAppend_spec hc hnd hm hnode
  refine ⟨l, h', htail, happ, ?_, hframe⟩
  rw [List.append_assoc]
  exact hchain

/-- The addresses of a list with one more cell. -/
theorem nodup_addrs_append {q : Queue} {a : Nat} {d : Proc} (hnd : (addrs q).Nodup)
    (ha : a ∉ addrs q) : (addrs (q ++ [(a, d)])).Nodup := by
  rw [addrs_append, addrs_cons, addrs_nil, List.nodup_append]
  refine ⟨hnd, List.nodup_singleton a, fun b hb b' hb' hbb => ?_⟩
  rw [List.mem_singleton] at hb'
  rw [hbb, hb'] at hb
  exact ha hb

theorem makeProcedure_represents {vm : Sched} {q q' : Queue} {iptr : UInt32} {a fuel : Nat}
    (hr : Represents vm q) (hfuel : q.length ≤ fuel)
    (hq : queueStep vm.codesz (.makeProcedure iptr a) q = some q') :
    ∃ vm', vm.makeProcedure fuel iptr a = some vm' ∧ Represents vm' q' ∧
      vm'.codesz = vm.codesz := by
  rw [queueStep] at hq
  unfold Sched.makeProcedure
  by_cases hbound : vm.codesz ≤ iptr
  · rw [if_pos hbound] at hq ⊢
    obtain rfl := Option.some.inj hq
    exact ⟨_, rfl, ⟨hr.isList, hr.only⟩, rfl⟩
  · rw [if_neg hbound] at hq ⊢
    by_cases ha : a ∈ addrs q
    · rw [if_pos ha] at hq
      cases hq
    · rw [if_neg ha] at hq
      obtain rfl := Option.some.inj hq
      have hnode : listMakeNode vm.heap a (newProc iptr) a = some ⟨none, none, newProc iptr⟩ :=
        Function.update_self _ _ _
      have hother : ∀ b, b ≠ a → listMakeNode vm.heap a (newProc iptr) b = vm.heap b :=
        fun b hb => Function.update_of_ne hb _ _
      have hchain : Chain (listMakeNode vm.heap a (newProc iptr)) none q none := by
        refine hr.isList.chain.congr (fun b hb => hother b ?_)
        rintro rfl
        exact ha hb
      have hsplit : ∀ b, b ∉ addrs (q ++ [(a, newProc iptr)]) → b ∉ addrs q ∧ b ≠ a := by
        intro b hb
        rw [addrs_append, addrs_cons, addrs_nil, List.mem_append, List.mem_singleton, not_or] at hb
        exact hb
      cases q with
      | nil =>
          rw [hr.isList.head]
          refine ⟨_, rfl, ⟨⟨rfl, ⟨hnode, trivial⟩, nodup_addrs_append hr.isList.nodup ha⟩, ?_⟩, rfl⟩
          intro b hb
          show listMakeNode vm.heap a (newProc iptr) b = none
          rw [hother b (hsplit b hb).2]
          exact hr.only b (hsplit b hb).1
      | cons c t =>
          obtain ⟨p, e⟩ := c
          obtain ⟨tail, h', htail, happ, hchain', hframe⟩ := append_tail_spec hchain
            hr.isList.nodup ha hnode (show t.length < fuel from hfuel)
          have hhead : vm.procedures = some p := hr.isList.head
          refine ⟨{ vm with heap := h' }, ?_, ⟨⟨?_, hchain', nodup_addrs_append hr.isList.nodup ha⟩,
            ?_⟩, rfl⟩
          · simp only [hhead, htail, happ, Option.bind_eq_bind, Option.bind_some]
          · exact hhead
          · intro b hb
            have hb' := hsplit b hb
            show h' b = none
            rw [hframe b hb'.1 hb'.2, hother b hb'.2]
            exact hr.only b hb'.1

theorem deleteCurrentProcedure_represents {vm : Sched} {q q' : Queue} (hr : Represents vm q)
    (hq : queueStep vm.codesz .deleteCurrentProcedure q = some q') :
    ∃ vm', vm.deleteCurrentProcedure = some vm' ∧ Represents vm' q' ∧
      vm'.codesz = vm.codesz := by
  cases q with
  | nil => cases hq
  | cons c t =>
      obtain ⟨a, d⟩ := c
      obtain rfl := Option.some.inj hq
      have hchain := hr.isList.chain
      have hnd := hr.isList.nodup
      obtain ⟨h', hun, hchain', hself, hframe⟩ := @listUnlink_spec _ _ [] _ _ _ hchain hnd
      have hat : a ∉ addrs t := (List.nodup_cons.1 hnd).1
      refine ⟨{ vm with heap := Function.update h' a none, procedures := headOr t none }, ?_,
        ⟨⟨rfl, ?_, (List.nodup_cons.1 hnd).2⟩, ?_⟩, rfl⟩
      · simp only [Sched.deleteCurrentProcedure, hr.isList.head, headOr, hchain.node,
          listDestroyNode, hun, Option.bind_eq_bind, Option.bind_some]
      · refine hchain'.congr (fun b hb => Function.update_of_ne ?_ _ _)
        rintro rfl
        exact hat hb
      · intro b hb
        by_cases hba : b = a
        · rw [hba]
          exact Function.update_self _ _ _
        · have hbt : b ∉ addrs ((a, d) :: t) := by
            rw [addrs_cons, List.mem_cons, not_or]
            exact ⟨hba, hb⟩
          show Function.update h' a none b = none
          rw [Function.update_of_ne hba, hframe b hb]
          exact hr.only b hbt

theorem sysYield_represents {vm : Sched} {q q' : Queue} {fuel : Nat} (hr : Represents vm q)
    (hfuel : q.length ≤ fuel) (hq : queueStep vm.codesz .sysYield q = some q') :
    ∃ vm', vm.sysYield fuel = some vm' ∧ Represents vm' q' ∧ vm'.codesz = vm.codesz := by
  cases q with
  | nil => cases hq
  | cons c t =>
      obtain ⟨a, d⟩ := c
      obtain rfl := Option.some.inj hq
      have hchain := hr.isList.chain
      have hnd := hr.isList.nodup
      cases t with
      | nil =>
          refine ⟨vm, ?_, hr, rfl⟩
          simp only [Sched.sysYield, hr.isList.head, headOr, hchain.node, Option.bind_eq_bind,
            Option.bind_some]
      | cons c' t =>
          obtain ⟨b, e⟩ := c'
          obtain ⟨h1, hun, hchain1, hself, hframe1⟩ := @listUnlink_spec _ _ [] _ _ _ hchain hnd
          have hat : a ∉ addrs ((b, e) :: t) := (List.nodup_cons.1 hnd).1
          have hnd' : (addrs ((b, e) :: t)).Nodup := (List.nodup_cons.1 hnd).2
          -- the node keeps its own links, which `list_append` overwrites
          rw [hchain.node] at hself
          obtain ⟨tail, h2, htail, happ, hchain2, hframe2⟩ := append_tail_spec hchain1 hnd' hat
            hself (show t.length < fuel by
              rw [List.length_cons, List.length_cons] at hfuel
              omega)
          refine ⟨{ vm with heap := h2, procedures := some b }, ?_,
            ⟨⟨rfl, hchain2, nodup_addrs_append hnd' hat⟩, ?_⟩, rfl⟩
          · simp only [Sched.sysYield, hr.isList.head, headOr, hchain.node, hun, htail, happ,
              Option.bind_eq_bind, Option.bind_some]
          · intro b hb
            rw [addrs_append, addrs_cons (a, d), addrs_nil, List.mem_append, List.mem_singleton,
              not_or] at hb
            show h2 b = none
            rw [hframe2 b hb.1 hb.2, hframe1 b hb.1]
            refine hr.only b ?_
            rw [addrs_cons, List.mem_cons, not_or]
            exact ⟨hb.2, hb.1⟩

/-! ## Every sequence of operations -/

theorem queueStep_length {codesz : UInt32} {op : SchedOp} {q q' : Queue}
    (h : queueStep codesz op q = some q') : q'.length ≤ q.length + 1 := by
  cases op with
  | makeProcedure iptr a =>
      rw [queueStep] at h
      split at h
      · rw [← Option.some.inj h]
        omega
      · split at h
        · cases h
        · rw [← Option.some.inj h, List.length_append, List.length_singleton]
  | sysYield =>
      cases q with
      | nil => cases h
      | cons c t =>
          rw [← Option.some.inj h, List.length_append, List.length_singleton, List.length_cons]
          omega
  | deleteCurrentProcedure =>
      cases q with
      | nil => cases h
      | cons c t =>
          rw [← Option.some.inj h, List.length_cons]
          omega

/-- Each operation on the linked list does what it does on the queue. `n` is the number of
operations to come; the queue cannot outgrow the fuel in that many. -/
theorem schedStep_simulates (fuel : Nat) (codesz : UInt32) :
    Steps.Simulates
      (fun n vm q => Represents vm q ∧ vm.codesz = codesz ∧ q.length + n ≤ fuel)
      (schedStep fuel) (queueStep codesz) := by
  rintro n op vm q q' ⟨hr, rfl, hfuel⟩ hq
  have hlen := queueStep_length hq
  have hstep : ∃ vm', schedStep fuel op vm = some vm' ∧ Represents vm' q' ∧
      vm'.codesz = vm.codesz := by
    cases op with
    | makeProcedure iptr a => exact makeProcedure_represents hr (by omega) hq
    | sysYield => exact sysYield_represents hr (by omega) hq
    | deleteCurrentProcedure => exact deleteCurrentProcedure_represents hr hq
  obtain ⟨vm', hvm', hr', hcode⟩ := hstep
  exact ⟨vm', hvm', hr', hcode, by omega⟩

/-- **The linked list is a queue.** Every sequence of operations that the queue can make, the
linked list makes as well, without following a bad pointer, and it is again a well-formed list
whose nodes are the queue. -/
theorem sched_refines_queue {ops : List SchedOp} {vm : Sched} {q q' : Queue} {fuel : Nat}
    (hr : Represents vm q) (hq : Steps.run (queueStep vm.codesz) ops q = some q')
    (hfuel : q.length + ops.length ≤ fuel) :
    ∃ vm', Steps.run (schedStep fuel) ops vm = some vm' ∧
      IsList vm'.heap vm'.procedures q' ∧ ∀ b ∉ addrs q', vm'.heap b = none := by
  obtain ⟨vm', hrun, hr', -⟩ := (schedStep_simulates fuel vm.codesz).run (n := 0)
    ⟨hr, rfl, hfuel⟩ hq
  exact ⟨vm', hrun, hr'.isList, hr'.only⟩

/-- Two procedures that take turns until the first one ends. -/
theorem sched_refines_queue_turns :
    ∃ vm', Steps.run (schedStep 5)
        [.makeProcedure 0 7, .makeProcedure 2 3, .sysYield, .sysYield, .deleteCurrentProcedure]
        ⟨4, 0, fun _ => none, none⟩ = some vm' ∧
      IsList vm'.heap vm'.procedures [(3, newProc 2)] ∧
      ∀ b ∉ addrs [(3, newProc 2)], vm'.heap b = none :=
  sched_refines_queue (represents_nil 4 0) (by decide) (by decide)

/-! ## On the machine -/

variable {σ : Type}

/-- `make_procedure`, with whether it returned a procedure. -/
def Vm.makeProcedure (vm : Vm σ) (iptr : UInt32) : Bool × Vm σ :=
  if vm.code.size ≤ iptr.toNat then (false, vm.raise vmEBadInstnPointer)
  else (true, { vm with procedures := vm.procedures ++ [newProc iptr] })

/-- `delete_current_procedure`; there is a current procedure wherever it is called. -/
def Vm.deleteCurrentProcedure (vm : Vm σ) : Vm σ := { vm with procedures := vm.procedures.tail }

/-- The operations of the machine are those of the queue, without the addresses. -/
theorem vm_makeProcedure_queue {vm : Vm σ} {q q' : Queue} {codesz iptr : UInt32} {a : Nat}
    (hcode : codesz.toNat = vm.code.size) (hvm : vm.procedures = q.map Prod.snd)
    (hq : queueStep codesz (.makeProcedure iptr a) q = some q') :
    (vm.makeProcedure iptr).2.procedures = q'.map Prod.snd := by
  rw [queueStep] at hq
  unfold Vm.makeProcedure
  rw [← hcode]
  by_cases hbound : codesz ≤ iptr
  · rw [if_pos hbound] at hq
    rw [if_pos (UInt32.le_iff_toNat_le.1 hbound), ← Option.some.inj hq]
    exact hvm
  · rw [if_neg hbound] at hq
    rw [if_neg (fun h => hbound (UInt32.le_iff_toNat_le.2 h))]
    split at hq
    · cases hq
    · rw [← Option.some.inj hq, List.map_append, ← hvm]
      rfl

theorem vm_deleteCurrentProcedure_queue {vm : Vm σ} {q q' : Queue} {codesz : UInt32}
    (hvm : vm.procedures = q.map Prod.snd)
    (hq : queueStep codesz .deleteCurrentProcedure q = some q') :
    vm.deleteCurrentProcedure.procedures = q'.map Prod.snd := by
  cases q with
  | nil => cases hq
  | cons c t =>
      rw [← Option.some.inj hq, Vm.deleteCurrentProcedure, hvm]
      rfl

end BvgzVm
