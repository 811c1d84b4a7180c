import UthreadRuntime.Support.Memory
import Mathlib.Logic.Function.Basic

/-! Context switching on x86-64 (`_switch` and `_uthread_init` of `uthread.c`).

`_switch` is nineteen instructions, and the offsets it saves at and restores from are
written in them; the fields of `struct context` are laid out for 32-bit registers and have
other names. `_uthread_init` builds the context of a new uthread by those field names. Here
both are what they are in the source: `switchCode` is the list of the instructions,
`uthreadInit` the stores, at the offsets the structs give. -/
namespace UthreadRuntime.Switch

open Memory

inductive Reg where
  | rax | rbx | rcx | rdx | rsi | rdi | rbp | rsp | r8 | r9 | r10 | r11 | r12 | r13 | r14 | r15
  deriving DecidableEq, Repr

/-- A processor and the memory it sees. -/
structure Cpu where
  reg : Reg → Word
  rip : Word
  mem : Mem

namespace Cpu

def setReg (r : Reg) (v : Word) (s : Cpu) : Cpu := {s with reg := Function.update s.reg r v}

/-- The address `off(%base)`. -/
def ea (off : Nat) (base : Reg) (s : Cpu) : Word := s.reg base + BitVec.ofNat 64 off

end Cpu

/-! ### `_switch` -/

inductive Instr where
  /-- `movq %src, off(%base)` -/
  | save (src : Reg) (off : Nat) (base : Reg)
  /-- `movq off(%base), %dst` -/
  | fetch (off : Nat) (base dst : Reg)
  | ret
  deriving DecidableEq, Repr

def Instr.exec (s : Cpu) : Instr → Cpu
  | .save src off base => {s with mem := store s.mem (s.ea off base) (s.reg src)}
  | .fetch off base dst => s.setReg dst (load s.mem (s.ea off base))
  | .ret => {s.setReg .rsp (s.reg .rsp + 8) with rip := load s.mem (s.reg .rsp)}

/-- `_switch(new_ctx, cur_ctx)`: `new_ctx` comes in `%rdi`, `cur_ctx` in `%rsi`. -/
def switchCode : List Instr := [
  .save .rsp 0 .rsi,
  .save .rbp 8 .rsi,
  .fetch 0 .rsp .rax,
  .save .rax 16 .rsi,
  .save .rbx 24 .rsi,
  .save .r12 32 .rsi,
  .save .r13 40 .rsi,
  .save .r14 48 .rsi,
  .save .r15 56 .rsi,
  .fetch 56 .rdi .r15,
  .fetch 48 .rdi .r14,
  .fetch 40 .rdi .r13,
  .fetch 32 .rdi .r12,
  .fetch 24 .rdi .rbx,
  .fetch 8 .rdi .rbp,
  .fetch 0 .rdi .rsp,
  .fetch 16 .rdi .rax,
  .save .rax 0 .rsp,
  .ret]

def switch (s : Cpu) : Cpu := switchCode.foldl Instr.exec s

/-! ### The structs -/

/-- The fields of `struct context`, every one a pointer. -/
inductive ContextField where
  | esp | ebp | eip | edi | esi | ebx | r1 | r2 | r3 | r4 | r5
  deriving DecidableEq, Repr

def contextFields : List ContextField := [.esp, .ebp, .eip, .edi, .esi, .ebx, .r1, .r2, .r3, .r4, .r5]

/-- The fields of `struct uthread` up to the last one `_uthread_init` uses. -/
inductive UthreadField where
  | ctx | id | stack | stackSize | func | arg | status
  deriving DecidableEq, Repr

def uthreadFields : List UthreadField := [.ctx, .id, .stack, .stackSize, .func, .arg, .status]

def ContextField.size (_ : ContextField) : Nat := 8

def UthreadField.size : UthreadField → Nat
  | .ctx => (contextFields.map ContextField.size).foldr (· + ·) 0
  | .id | .stack | .stackSize | .func | .arg => 8
  | .status => 4

/-- The offset of a field: the sizes of those before it, none of which leaves a gap. -/
def offsetOf {α : Type} [DecidableEq α] (size : α → Nat) (fields : List α) (f : α) : Nat :=
  ((fields.takeWhile (· ≠ f)).map size).foldr (· + ·) 0

/-- `&ut->f` -/
def uthreadAt (ut : Word) (f : UthreadField) : Word :=
  ut + BitVec.ofNat 64 (offsetOf UthreadField.size uthreadFields f)

/-- `&ctx->f` -/
def contextAt (ctx : Word) (f : ContextField) : Word :=
  ctx + BitVec.ofNat 64 (offsetOf ContextField.size contextFields f)

/-- The address of a uthread's context is that of the uthread: `ctx` is the first field. -/
theorem uthreadAt_ctx (ut : Word) : uthreadAt ut .ctx = ut := by
  show ut + BitVec.ofNat 64 0 = ut
  simp

/-! ### `_uthread_init` -/

/-- `STACK_SIZE` -/
def stackSize : Nat := 128 * 1024

/-- `_uthread_init(ut)`; `exec` is the address of `_uthread_exec`. -/
def uthreadInit (exec ut : Word) (m : Mem) : Mem :=
  let stack := load m (uthreadAt ut .stack) + load m (uthreadAt ut .stackSize)
  let ctx := uthreadAt ut .ctx
  let m := store m (stack - 2 * 8) ut
  let m := store m (stack - 3 * 8) 0
  let m := store m (contextAt ctx .esp) (stack - 4 * 8)
  let m := store m (contextAt ctx .ebp) (stack - 3 * 8)
  let m := store m (contextAt ctx .eip) exec
  store32 m (uthreadAt ut .status) 2#32

end UthreadRuntime.Switch
