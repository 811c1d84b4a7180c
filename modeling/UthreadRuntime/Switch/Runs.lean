import UthreadRuntime.Switch.Machine
import Mathlib.Logic.Relation

/-! Any number of contexts that switch among each other.

A record of `struct context` that does not run is `held`, with what its context will go on
with: the frame it called `_switch` in, or the function of a uthread that has not run yet.
Between two switches the processor may do anything but write to such a record; the words of
the stacks are the contexts' own. Every switch then gives the context it resumes its frame, in a
run of any length. -/
namespace UthreadRuntime.Switch

open Memory

/-- What a context has when it runs: the registers a call preserves, the stack and the next
instruction. -/
structure Frame where
  rbp : Word
  rbx : Word
  r12 : Word
  r13 : Word
  r14 : Word
  r15 : Word
  sp : Word
  ip : Word
  deriving DecidableEq, Repr

def Cpu.frame (s : Cpu) : Frame where
  rbp := s.reg .rbp
  rbx := s.reg .rbx
  r12 := s.reg .r12
  r13 := s.reg .r13
  r14 := s.reg .r14
  r15 := s.reg .r15
  sp := s.reg .rsp
  ip := s.rip

/-- At a call of `_switch`: what the return from it must give back. -/
def Cpu.callFrame (s : Cpu) : Frame := {s.frame with sp := s.reg .rsp + 8, ip := load s.mem (s.reg .rsp)}

/-- The frame that a record of `struct context` leads to. -/
def saved (m : Mem) (ctx : Word) : Frame where
  rbp := load m (ctx + BitVec.ofNat 64 8)
  rbx := load m (ctx + BitVec.ofNat 64 24)
  r12 := load m (ctx + BitVec.ofNat 64 32)
  r13 := load m (ctx + BitVec.ofNat 64 40)
  r14 := load m (ctx + BitVec.ofNat 64 48)
  r15 := load m (ctx + BitVec.ofNat 64 56)
  sp := load m (ctx + BitVec.ofNat 64 0) + 8
  ip := load m (ctx + BitVec.ofNat 64 16)

/-- The first half of `_switch`. -/
def saving (s : Cpu) : Cpu := (switchCode.take 9).foldl Instr.exec s

def restoring (s : Cpu) : Cpu := (switchCode.drop 9).foldl Instr.exec s

theorem switch_eq (s : Cpu) : switch s = restoring (saving s) := rfl

theorem restoring_frame (s : Cpu) : (restoring s).frame = saved s.mem (s.reg .rdi) := by
  have hmem : ∀ x : Word, (x + BitVec.ofNat 64 0) = x := by simp
  simp only [restoring, switchCode, List.drop, List.foldl, Instr.exec, Cpu.setReg, Cpu.ea, Cpu.frame, saved,
    Function.update, reduceCtorEq, dite_false, dite_true, hmem, load_store]

theorem restoring_mem (s : Cpu) : (restoring s).mem =
    store s.mem (load s.mem (s.reg .rdi)) (load s.mem (s.reg .rdi + BitVec.ofNat 64 16)) := by
  have hmem : ∀ x : Word, (x + BitVec.ofNat 64 0) = x := by simp
  simp only [restoring, switchCode, List.drop, List.foldl, Instr.exec, Cpu.setReg, Cpu.ea, Function.update,
    reduceCtorEq, dite_false, dite_true, hmem]

theorem saving_rdi (s : Cpu) : (saving s).reg .rdi = s.reg .rdi := rfl

/-- The record is where the words of a frame are kept. -/
theorem saved_congr {m m' : Mem} {ctx : Word} (h : SameOn ctx 64 m m') : saved m' ctx = saved m ctx := by
  have hfield : ∀ i, i + 8 ≤ 64 → load m' (ctx + BitVec.ofNat 64 i) = load m (ctx + BitVec.ofNat 64 i) :=
    fun i hi => load_congr (h.field hi)
  unfold saved
  rw [hfield 8 (by decide), hfield 24 (by decide), hfield 32 (by decide), hfield 40 (by decide),
    hfield 48 (by decide), hfield 56 (by decide), hfield 0 (by decide), hfield 16 (by decide)]

theorem saving_mem (s : Cpu) : (saving s).mem =
    store (store (store (store (store (store (store (store s.mem
      (s.reg .rsi + BitVec.ofNat 64 0) (s.reg .rsp))
      (s.reg .rsi + BitVec.ofNat 64 8) (s.reg .rbp))
      (s.reg .rsi + BitVec.ofNat 64 16)
        (load (store (store s.mem (s.reg .rsi + BitVec.ofNat 64 0) (s.reg .rsp))
          (s.reg .rsi + BitVec.ofNat 64 8) (s.reg .rbp)) (s.reg .rsp + BitVec.ofNat 64 0)))
      (s.reg .rsi + BitVec.ofNat 64 24) (s.reg .rbx))
      (s.reg .rsi + BitVec.ofNat 64 32) (s.reg .r12))
      (s.reg .rsi + BitVec.ofNat 64 40) (s.reg .r13))
      (s.reg .rsi + BitVec.ofNat 64 48) (s.reg .r14))
      (s.reg .rsi + BitVec.ofNat 64 56) (s.reg .r15) := rfl

theorem saving_sameOn {s : Cpu} {c : Word} {n : Nat} (h : Apart c n (s.reg .rsi) 64) :
    SameOn c n s.mem (saving s).mem := by
  have hfield : ∀ {m : Mem} {i : Nat} (v : Word), i + 8 ≤ 64 →
      SameOn c n m (store m (s.reg .rsi + BitVec.ofNat 64 i) v) :=
    fun v hi => SameOn.store (fun x hx hx' => h x hx (within_of_field hi hx')) v
  rw [saving_mem]
  exact (hfield _ (by decide)).trans ((hfield _ (by decide)).trans ((hfield _ (by decide)).trans
    ((hfield _ (by decide)).trans ((hfield _ (by decide)).trans ((hfield _ (by decide)).trans
    ((hfield _ (by decide)).trans (hfield _ (by decide))))))))

theorem saving_saves {s : Cpu} (h : Apart (s.reg .rsp) 8 (s.reg .rsi) 64) :
    saved (saving s).mem (s.reg .rsi) = s.callFrame := by
  have hfield : ∀ {m : Mem} {i : Nat} (v : Word), i + 8 ≤ 64 →
      load (store m (s.reg .rsi + BitVec.ofNat 64 i) v) (s.reg .rsp) = load m (s.reg .rsp) :=
    fun v hi => load_congr (SameOn.store (fun x hx hx' => h x hx (within_of_field hi hx')) v)
  have hzero : s.reg .rsp + BitVec.ofNat 64 0 = s.reg .rsp := by simp
  rw [saving_mem, hzero, hfield _ (by decide), hfield _ (by decide)]
  simp (disch := decide) only [saved, load_store, load_store_field, Cpu.callFrame, Cpu.frame]

section Switch

variable {s : Cpu}

/-- The context that is resumed gets what its record holds. -/
theorem switch_frame (h : Apart (s.reg .rdi) 64 (s.reg .rsi) 64) :
    (switch s).frame = saved s.mem (s.reg .rdi) := by
  rw [switch_eq, restoring_frame, saving_rdi]
  exact saved_congr (saving_sameOn h)

/-- What is outside the record that is saved to, and off the stack that is resumed, stays. -/
theorem switch_sameOn {c : Word} {n : Nat} (hrec : Apart (s.reg .rdi) 64 (s.reg .rsi) 64)
    (hc : Apart c n (s.reg .rsi) 64) (hslot : Apart c n (load s.mem (s.reg .rdi)) 8) :
    SameOn c n s.mem (switch s).mem := by
  have hrsp : load (saving s).mem (s.reg .rdi) = load s.mem (s.reg .rdi) := by
    have hfield := load_congr ((saving_sameOn hrec).field (show 0 + 8 ≤ 64 by decide))
    simpa using hfield
  rw [switch_eq, restoring_mem, saving_rdi, hrsp]
  exact (saving_sameOn hc).trans (SameOn.store hslot _)

/-- The context that calls leaves in its record what its return must give back. -/
theorem switch_saves (hrec : Apart (s.reg .rdi) 64 (s.reg .rsi) 64)
    (hstack : Apart (s.reg .rsp) 8 (s.reg .rsi) 64)
    (hslot : Apart (s.reg .rsi) 64 (load s.mem (s.reg .rdi)) 8) :
    saved (switch s).mem (s.reg .rsi) = s.callFrame := by
  have hrsp : load (saving s).mem (s.reg .rdi) = load s.mem (s.reg .rdi) := by
    have hfield := load_congr ((saving_sameOn hrec).field (show 0 + 8 ≤ 64 by decide))
    simpa using hfield
  rw [← saving_saves hstack, switch_eq, restoring_mem, saving_rdi, hrsp]
  exact saved_congr (SameOn.store hslot _)

end Switch

/-! ### Runs -/

/-- The block `posix_memalign` gave: page-aligned, and inside the address space. -/
structure Allocated (base : Word) : Prop where
  aligned : base.toNat % 4096 = 0
  fits : base.toNat + stackSize ≤ 2 ^ 64

/-- Three words below the top of the stack. -/
theorem Allocated.entry {base : Word} (h : Allocated base) :
    (base + BitVec.ofNat 64 stackSize - 24).toNat = base.toNat + (stackSize - 24) := by
  have hfits := h.fits
  unfold stackSize at hfits ⊢
  bv_omega

/-- What is known of a context that does not run. -/
inductive Held where
  /-- It called `_switch` with this frame. -/
  | suspended (f : Frame)
  /-- `_uthread_init` has set it up for the uthread, on the stack at `base`. -/
  | prepared (ut base : Word)
  deriving DecidableEq, Repr

/-- A processor, and the records of the contexts that do not run. -/
structure Contexts where
  cpu : Cpu
  held : Word → Option Held := fun _ => none

namespace Contexts

/-- The call `_switch(new_ctx, cur_ctx)` is one between distinct contexts: `new_ctx` does not
run and `cur_ctx` does, no record is part of another, and the stack words that `_switch` reads
and writes are in no record. -/
structure CanSwitch (s : Contexts) : Prop where
  resumes : s.held (s.cpu.reg .rdi) ≠ none
  runs : s.held (s.cpu.reg .rsi) = none
  records : ∀ c, s.held c ≠ none → Apart c 64 (s.cpu.reg .rsi) 64
  stack : Apart (s.cpu.reg .rsp) 8 (s.cpu.reg .rsi) 64
  slot : ∀ c, c ≠ s.cpu.reg .rdi → s.held c ≠ none ∨ c = s.cpu.reg .rsi →
    Apart c 64 (load s.cpu.mem (s.cpu.reg .rdi)) 8

/-- Nothing was written to the record of a context that does not run. -/
def Intact (s : Contexts) (m : Mem) : Prop := ∀ c, s.held c ≠ none → SameOn c 64 s.cpu.mem m

/-- After `_switch`: the one context runs and the other has its frame in its record. -/
def switched (s : Contexts) : Contexts where
  cpu := switch s.cpu
  held := Function.update (Function.update s.held (s.cpu.reg .rdi) none) (s.cpu.reg .rsi)
    (some (.suspended s.cpu.callFrame))

/-- After `_uthread_init(ut)`. -/
def prepared (exec ut base : Word) (s : Contexts) : Contexts where
  cpu := {s.cpu with mem := uthreadInit exec ut s.cpu.mem}
  held := Function.update s.held (uthreadAt ut .ctx) (some (.prepared ut base))

/-- A context that has ended is not resumed again, and its record may be used anew. -/
def ended (c : Word) (s : Contexts) : Contexts := {s with held := Function.update s.held c none}

/-- Between two switches anything may happen to the registers, and to the memory outside the
records of the contexts that do not run. -/
inductive Step (exec : Word) (s : Contexts) : Contexts → Prop where
  | work {cpu : Cpu} : s.Intact cpu.mem → Step exec s {s with cpu := cpu}
  | finish {c : Word} : Step exec s (s.ended c)
  | init {ut base : Word} : s.held (uthreadAt ut .ctx) = none →
      load s.cpu.mem (uthreadAt ut .stack) = base →
      load s.cpu.mem (uthreadAt ut .stackSize) = BitVec.ofNat 64 stackSize → Allocated base →
      s.Intact (uthreadInit exec ut s.cpu.mem) → Step exec s (s.prepared exec ut base)
  | switch : s.CanSwitch → Step exec s s.switched

/-- The states of a run that starts with no context suspended. -/
def Reaches (exec : Word) (s : Contexts) : Prop :=
  ∃ cpu : Cpu, Relation.ReflTransGen (Step exec) {cpu := cpu} s

/-- Every record holds what is known of its context. -/
structure Kept (exec : Word) (s : Contexts) : Prop where
  suspended : ∀ c f, s.held c = some (.suspended f) → saved s.cpu.mem c = f
  prepared : ∀ c ut base, s.held c = some (.prepared ut base) → c = uthreadAt ut .ctx ∧ Allocated base ∧
    (saved s.cpu.mem c).sp = base + BitVec.ofNat 64 stackSize - 24 ∧ (saved s.cpu.mem c).ip = exec

section Step

variable {exec : Word} {s s' : Contexts}

theorem Kept.work (h : Kept exec s) {cpu : Cpu} (hi : s.Intact cpu.mem) : Kept exec {s with cpu := cpu} := by
  have hsame : ∀ c, s.held c ≠ none → saved cpu.mem c = saved s.cpu.mem c := fun c hc => saved_congr (hi c hc)
  constructor
  · intro c f hc
    have hc' : s.held c = some (.suspended f) := hc
    show saved cpu.mem c = f
    rw [hsame c (by rw [hc']; simp)]
    exact h.suspended c f hc'
  · intro c ut base hc
    have hc' : s.held c = some (.prepared ut base) := hc
    show c = _ ∧ _ ∧ (saved cpu.mem c).sp = _ ∧ (saved cpu.mem c).ip = _
    rw [hsame c (by rw [hc']; simp)]
    exact h.prepared c ut base hc'

theorem Kept.finish (h : Kept exec s) (c : Word) : Kept exec (s.ended c) := by
  have hheld : ∀ d k, (s.ended c).held d = some k → s.held d = some k := by
    intro d k hd
    by_cases hdc : d = c
    · simp [ended, hdc] at hd
    · simpa [ended, hdc] using hd
  constructor
  · intro d f hd
    exact h.suspended d f (hheld d _ hd)
  · intro d ut base hd
    exact h.prepared d ut base (hheld d _ hd)

/-- The stores of `_uthread_init` and the offsets of `_switch` agree. -/
theorem saved_uthreadInit {ut base : Word} {m : Mem} (hbase : load m (uthreadAt ut .stack) = base)
    (hsize : load m (uthreadAt ut .stackSize) = BitVec.ofNat 64 stackSize) :
    (saved (uthreadInit exec ut m) (uthreadAt ut .ctx)).sp = base + BitVec.ofNat 64 stackSize - 24 ∧
    (saved (uthreadInit exec ut m) (uthreadAt ut .ctx)).ip = exec := by
  have hfield : ∀ (m : Mem) (i : Nat), i + 8 ≤ 64 →
      load (store32 m (uthreadAt ut .status) 2#32) (uthreadAt ut .ctx + BitVec.ofNat 64 i) =
        load m (uthreadAt ut .ctx + BitVec.ofNat 64 i) := by
    intro m i hi
    have hstatus : uthreadAt ut .status = ut + BitVec.ofNat 64 128 := rfl
    rw [uthreadAt_ctx, hstatus]
    exact load_congr (SameOn.put (Apart.fields ut (.inl (by omega)) (by omega) (by omega)) _)
  have hesp : ∀ ctx, contextAt ctx .esp = ctx + BitVec.ofNat 64 0 := fun _ => rfl
  have hebp : ∀ ctx, contextAt ctx .ebp = ctx + BitVec.ofNat 64 8 := fun _ => rfl
  have heip : ∀ ctx, contextAt ctx .eip = ctx + BitVec.ofNat 64 16 := fun _ => rfl
  unfold saved uthreadInit
  dsimp only
  rw [hfield _ 0 (by decide), hfield _ 16 (by decide), hesp, hebp, heip, hbase, hsize]
  simp (disch := decide) only [load_store, load_store_field]
  exact ⟨by bv_omega, trivial⟩

theorem Kept.init (h : Kept exec s) {ut base : Word} (hbase : load s.cpu.mem (uthreadAt ut .stack) = base)
    (hsize : load s.cpu.mem (uthreadAt ut .stackSize) = BitVec.ofNat 64 stackSize) (hal : Allocated base)
    (hi : s.Intact (uthreadInit exec ut s.cpu.mem)) : Kept exec (s.prepared exec ut base) := by
  have hwork : Kept exec {s with cpu := {s.cpu with mem := uthreadInit exec ut s.cpu.mem}} := h.work hi
  constructor
  · intro c f hc
    by_cases hcu : c = uthreadAt ut .ctx
    · simp [Contexts.prepared, hcu] at hc
    · simp only [Contexts.prepared, Function.update_of_ne hcu] at hc
      exact hwork.suspended c f hc
  · intro c ut' base' hc
    by_cases hcu : c = uthreadAt ut .ctx
    · simp only [Contexts.prepared, hcu, Function.update_self, Option.some.injEq, Held.prepared.injEq] at hc
      obtain ⟨rfl, rfl⟩ := hc
      rw [hcu]
      exact ⟨rfl, hal, saved_uthreadInit hbase hsize⟩
    · simp only [Contexts.prepared, Function.update_of_ne hcu] at hc
      exact hwork.prepared c ut' base' hc

theorem CanSwitch.apart (h : s.CanSwitch) : Apart (s.cpu.reg .rdi) 64 (s.cpu.reg .rsi) 64 :=
  h.records _ h.resumes

theorem CanSwitch.ne (h : s.CanSwitch) : s.cpu.reg .rsi ≠ s.cpu.reg .rdi := by
  intro he
  apply h.resumes
  rw [← he]
  exact h.runs

/-- The contexts that neither call nor are resumed. -/
theorem CanSwitch.others (h : s.CanSwitch) {c : Word} (hc : s.switched.held c ≠ none)
    (hne : c ≠ s.cpu.reg .rsi) :
    s.switched.held c = s.held c ∧ saved s.switched.cpu.mem c = saved s.cpu.mem c := by
  have hsame : s.switched.held c = Function.update s.held (s.cpu.reg .rdi) none c := by
    unfold switched
    dsimp only
    rw [Function.update_of_ne hne]
  have hdi : c ≠ s.cpu.reg .rdi := by
    intro he
    rw [hsame, he, Function.update_self] at hc
    exact hc rfl
  rw [hsame, Function.update_of_ne hdi] at hc ⊢
  exact ⟨rfl, saved_congr (switch_sameOn h.apart (h.records c hc) (h.slot c hdi (.inl hc)))⟩

theorem Kept.switch (h : Kept exec s) (hsw : s.CanSwitch) : Kept exec s.switched := by
  have hself : s.switched.held (s.cpu.reg .rsi) = some (.suspended s.cpu.callFrame) := by
    unfold switched
    dsimp only
    rw [Function.update_self]
  constructor
  · intro c f hc
    by_cases hcs : c = s.cpu.reg .rsi
    · rw [hcs, hself] at hc
      cases hc
      rw [hcs]
      exact switch_saves hsw.apart hsw.stack (hsw.slot _ hsw.ne (.inr rfl))
    · obtain ⟨hheld, hmem⟩ := hsw.others (by rw [hc]; simp) hcs
      rw [hmem]
      exact h.suspended c f (hheld.symm.trans hc)
  · intro c ut base hc
    by_cases hcs : c = s.cpu.reg .rsi
    · rw [hcs, hself] at hc
      cases hc
    · obtain ⟨hheld, hmem⟩ := hsw.others (by rw [hc]; simp) hcs
      rw [hmem]
      exact h.prepared c ut base (hheld.symm.trans hc)

theorem Kept.step (h : Kept exec s) (hs : Step exec s s') : Kept exec s' := by
  cases hs with
  | work hi => exact h.work hi
  | finish => exact h.finish _
  | init _ hbase hsize hal hi => exact h.init hbase hsize hal hi
  | switch hsw => exact h.switch hsw

theorem Kept.of_reaches (h : Reaches exec s) : Kept exec s := by
  obtain ⟨cpu, hrun⟩ := h
  induction hrun with
  | refl =>
    constructor
    · intro c f hc
      cases hc
    · intro c ut base hc
      cases hc
  | tail _ hs ih => exact ih.step hs

end Step

/-- The entry of a new uthread: `_uthread_exec(ut)`, on its stack, aligned as a call leaves it. -/
structure Entered (exec ut base : Word) (s : Cpu) : Prop where
  rip : s.rip = exec
  rdi : s.reg .rdi = ut
  aligned : ((s.reg .rsp).toNat + 8) % 16 = 0
  above : base.toNat ≤ (s.reg .rsp).toNat
  below : (s.reg .rsp).toNat < base.toNat + stackSize

/-- **Every switch gives the context it resumes what that had when it was suspended**, and
starts a new uthread in its function. -/
theorem switch_restores {exec : Word} {s : Contexts} (h : Reaches exec s) (hsw : s.CanSwitch) :
    (∀ f, s.held (s.cpu.reg .rdi) = some (.suspended f) → (switch s.cpu).frame = f) ∧
    ∀ ut base, s.held (s.cpu.reg .rdi) = some (.prepared ut base) → Entered exec ut base (switch s.cpu) := by
  have hkept := Kept.of_reaches h
  have hframe := switch_frame hsw.apart
  constructor
  · intro f hf
    rw [hframe]
    exact hkept.suspended _ f hf
  · intro ut base hp
    obtain ⟨hctx, hal, hsp, hip⟩ := hkept.prepared _ ut base hp
    rw [← hframe] at hsp hip
    have hrsp : ((switch s.cpu).reg .rsp).toNat = base.toNat + (stackSize - 24) := by
      rw [← hal.entry]
      exact congrArg BitVec.toNat hsp
    have haligned := hal.aligned
    refine ⟨hip, ?_, ?_, ?_, ?_⟩
    · show s.cpu.reg .rdi = ut
      rw [hctx, uthreadAt_ctx]
    · rw [hrsp]
      unfold stackSize
      omega
    · rw [hrsp]
      exact Nat.le_add_right _ _
    · rw [hrsp]
      unfold stackSize
      omega

/-! A scheduler starts a uthread and is resumed by it. -/

/-- The scheduler calls `_switch(&ut->ctx, &sched->ctx)`. -/
def starting : Contexts where
  cpu :=
    { reg := fun
        | .rdi => 0x1000
        | .rsi => 0x2000
        | .rsp => 0x9000
        | .rbx => 7
        | _ => 0
      rip := 0x500
      mem := store (store (fun _ => 0) (uthreadAt 0x1000 .stack) 0x100000)
        (uthreadAt 0x1000 .stackSize) (BitVec.ofNat 64 stackSize) }

def started : Contexts := starting.prepared 0x400 0x1000 0x100000

/-- The uthread calls `_switch(&sched->ctx, &ut->ctx)`. -/
def yielding : Contexts := {started.switched with
  cpu := {started.switched.cpu with
    reg := fun
      | .rdi => 0x2000
      | .rsi => 0x1000
      | .rsp => 0x110000
      | .rbx => 9
      | _ => 1}}

theorem starting_reaches : Reaches 0x400 started := by
  refine ⟨starting.cpu, .single ?_⟩
  have hal : Allocated 0x100000 := ⟨by decide, by decide⟩
  refine Step.init rfl ?_ ?_ hal ?_
  · exact load_store_field _ _ _ (by decide) (by decide) (by decide) |>.trans (load_store _ _ _)
  · exact load_store _ _ _
  · intro c hc
    exact absurd rfl hc

theorem started_held {c : Word} (h : started.held c ≠ none) : c = 0x1000 := by
  by_contra hc
  exact h (Function.update_of_ne hc _ _)

theorem started_slot : load started.cpu.mem 0x1000 = 0x11ffe0 := by
  obtain ⟨-, -, hsp, -⟩ := (Kept.of_reaches starting_reaches).prepared 0x1000 0x1000 0x100000 rfl
  have hload : load started.cpu.mem 0x1000 + 8 = 0x11ffe8 := hsp
  bv_omega

theorem started_canSwitch : started.CanSwitch where
  resumes := by
    have hheld : started.held 0x1000 = some (.prepared 0x1000 0x100000) := rfl
    show started.held 0x1000 ≠ none
    rw [hheld]
    simp
  runs := rfl
  records := by
    intro c hc
    rw [started_held hc]
    exact Apart.of_le (by decide) (by decide)
  stack := Apart.of_le (by decide) (by decide)
  slot := by
    intro c hne hc
    have hcs : c = 0x2000 := hc.resolve_left fun hheld => hne (started_held hheld)
    show Apart c 64 (load started.cpu.mem 0x1000) 8
    rw [hcs, started_slot]
    exact Apart.of_le (by decide) (by decide)

theorem yielding_reaches : Reaches 0x400 yielding := by
  obtain ⟨cpu, hrun⟩ := starting_reaches
  refine ⟨cpu, (hrun.tail (.switch started_canSwitch)).tail (.work ?_)⟩
  intro c _
  exact SameOn.refl c 64 _

theorem yielding_held {c : Word} (h : yielding.held c ≠ none) : c = 0x2000 := by
  by_contra hc
  have hsame : yielding.held c = Function.update started.held 0x1000 none c := Function.update_of_ne hc _ _
  rw [hsame] at h
  by_cases hu : c = 0x1000
  · rw [hu, Function.update_self] at h
    exact h rfl
  · rw [Function.update_of_ne hu] at h
    exact hu (started_held h)

theorem yielding_suspended : yielding.held 0x2000 = some (.suspended started.cpu.callFrame) := rfl

theorem yielding_slot : load yielding.cpu.mem 0x2000 = 0x9000 := by
  have hsp := congrArg Frame.sp ((Kept.of_reaches yielding_reaches).suspended 0x2000 _ yielding_suspended)
  have hload : load yielding.cpu.mem 0x2000 + 8 = 0x9008 := hsp
  bv_omega

theorem yielding_canSwitch : yielding.CanSwitch where
  resumes := by
    show yielding.held 0x2000 ≠ none
    rw [yielding_suspended]
    simp
  runs := rfl
  records := by
    intro c hc
    rw [yielding_held hc]
    exact Apart.of_le (by decide) (by decide)
  stack := Apart.of_le (by decide) (by decide)
  slot := by
    intro c hne hc
    have hcu : c = 0x1000 := hc.resolve_left fun hheld => hne (yielding_held hheld)
    show Apart c 64 (load yielding.cpu.mem 0x2000) 8
    rw [hcu, yielding_slot]
    exact Apart.of_le (by decide) (by decide)

theorem switch_restores_scheduler :
    Entered 0x400 0x1000 0x100000 (switch started.cpu) ∧
      (switch yielding.cpu).frame = started.cpu.callFrame :=
  ⟨(switch_restores starting_reaches started_canSwitch).2 0x1000 0x100000 rfl,
    (switch_restores yielding_reaches yielding_canSwitch).1 _ yielding_suspended⟩

end Contexts

end UthreadRuntime.Switch
