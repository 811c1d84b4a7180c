import UthreadRuntime.Hook.Streams

/-! The functions that hand on the result of one inner call.

`uthread_accept`, `uthread_connect`, `uthread_read`, the `recv` family and the two message senders
ask again while their inner call fails for now, and return what it returns in the end. What they
have asked and been told is in the trace: nothing the kernel has given is lost, asked for twice, or
made up. -/
namespace UthreadRuntime.Hook

/-- A function that hands on: it has no count and no test at the end of its loop, an expired wait
makes it fail, and a result it does not return is negative. -/
structure HandsOn (x : Wrapper) : Prop where
  counted : x.counted = false
  bottom : x.bottom = fun _ => none
  expired : ∀ v e, x.onExpired = some (v, e) → v < 0
  args : ∀ f f', f.args = f'.args → x.args f = x.args f'
  returns : ∀ f ret e v, x.verdict f ret e = .returns v → v = ret
  again : ∀ f ret e f', x.verdict f ret e = .again f' → f' = f ∧ ret < 0
  waits : ∀ f ret e, x.verdict f ret e = .waits → ret < 0

def Entry.handsOn : Entry → Bool
  | .accept | .connect | .read | .recv | .recvmsg | .recvfrom | .sendmsg | .sendto => true
  | _ => false

section Verdicts

variable {f f' : Frame} {ret v : Int} {e : Errno}

theorem readVerdict_cases (f : Frame) (ret : Int) (e : Errno) :
    readVerdict f ret e = .returns ret ∨ ret < 0 ∧ (readVerdict f ret e = .waits ∨ readVerdict f ret e = .again f) := by
  unfold readVerdict
  split
  · rename_i h
    rw [h.1]
    exact .inl rfl
  · split
    · rename_i h
      exact .inr ⟨by omega, .inl rfl⟩
    · split
      · exact .inl rfl
      · exact .inr ⟨by omega, .inr rfl⟩

theorem sendmsgVerdict_cases (f : Frame) (ret : Int) (e : Errno) :
    sendmsgVerdict f ret e = .returns ret ∨
      ret < 0 ∧ (sendmsgVerdict f ret e = .waits ∨ sendmsgVerdict f ret e = .again f) := by
  unfold sendmsgVerdict
  split
  · exact .inl rfl
  · split
    · rename_i h
      rw [h.1]
      exact .inl rfl
    · split
      · exact .inr ⟨by omega, .inl rfl⟩
      · exact .inr ⟨by omega, .inr rfl⟩

theorem acceptVerdict_cases (f : Frame) (ret : Int) (e : Errno) :
    acceptVerdict f ret e = .returns ret ∨
      ret < 0 ∧ (acceptVerdict f ret e = .waits ∨ acceptVerdict f ret e = .again f) := by
  unfold acceptVerdict
  split
  · rename_i h
    split
    · exact .inr ⟨by omega, .inl rfl⟩
    · split
      · exact .inr ⟨by omega, .inr rfl⟩
      · rw [h]
        exact .inl rfl
  · exact .inl rfl

theorem connectVerdict_cases (f : Frame) (ret : Int) (e : Errno) :
    connectVerdict f ret e = .returns ret ∨
      ret < 0 ∧ (connectVerdict f ret e = .waits ∨ connectVerdict f ret e = .again f) := by
  unfold connectVerdict
  split
  · rename_i h
    split
    · exact .inr ⟨by omega, .inl rfl⟩
    · rw [h]
      exact .inl rfl
  · exact .inl rfl

/-- The tests say all there is to say of a verdict. -/
theorem HandsOn.of_cases {x : Wrapper} (hcounted : x.counted = false) (hbottom : x.bottom = fun _ => none)
    (hexpired : ∀ v e, x.onExpired = some (v, e) → v < 0) (hargs : ∀ f f', f.args = f'.args → x.args f = x.args f')
    (hcases : ∀ f ret e, x.verdict f ret e = .returns ret ∨
      ret < 0 ∧ (x.verdict f ret e = .waits ∨ x.verdict f ret e = .again f)) : HandsOn x := by
  refine ⟨hcounted, hbottom, hexpired, hargs, fun f ret e v hv => ?_, fun f ret e f' hv => ?_, fun f ret e hv => ?_⟩
  · rcases hcases f ret e with h | ⟨-, h | h⟩ <;> rw [h] at hv <;> cases hv
    rfl
  · rcases hcases f ret e with h | ⟨hneg, h | h⟩ <;> rw [h] at hv <;> cases hv
    exact ⟨rfl, hneg⟩
  · rcases hcases f ret e with h | ⟨hneg, h | h⟩ <;> rw [h] at hv <;> cases hv
    exact hneg

end Verdicts

theorem Entry.handsOn_wrapper {e : Entry} (h : e.handsOn = true) : HandsOn e.wrapper := by
  have hnone : ∀ v o, (none : Option (Int × Option Errno)) = some (v, o) → v < 0 := fun _ _ h => nomatch h
  have htwo : ∀ v o, some ((-2 : Int), (none : Option Errno)) = some (v, o) → v < 0 := by
    intro v o h
    cases h
    decide
  have hone : ∀ v o, some ((-1 : Int), some Errno.etimedout) = some (v, o) → v < 0 := by
    intro v o h
    cases h
    decide
  have hsame : ∀ f f' : Frame, f.args = f'.args → f.args = f'.args := fun _ _ h => h
  have hflag : ∀ f f' : Frame, f.args = f'.args → withFlag f.args = withFlag f'.args :=
    fun _ _ h => congrArg withFlag h
  cases e with
  | accept => exact .of_cases rfl rfl hnone hsame acceptVerdict_cases
  | connect => exact .of_cases rfl rfl hone hsame connectVerdict_cases
  | read => exact .of_cases rfl rfl htwo hsame readVerdict_cases
  | recv | recvmsg | recvfrom => exact .of_cases rfl rfl htwo hflag readVerdict_cases
  | sendmsg | sendto => exact .of_cases rfl rfl hnone hflag sendmsgVerdict_cases
  | write | recvExact | readExact | send | writev => cases h

/-! ### The loop -/

section Loop

variable {x : Wrapper} {a : Args} {f f' : Frame} {w w' : World} {r : Answer} {v : Int} {y y' : Traced}

/-- From one statement of the loop to the next. -/
inductive Turn (x : Wrapper) (r : Answer) : BodyAt → BodyAt → Prop where
  | goesOn {k : BodyAt} : k = .fcntl ∨ k = .call → Turn x r .head k
  | nonblock : Turn x r .fcntl .call
  | calls : Turn x r .call (.test (x.reads r.ret))
  | fails {ret : Int} {k : BodyAt} : ret < 0 → k = .head ∨ k = .register → Turn x r (.test ret) k
  | waits : Turn x r .register .after
  | again : Turn x r .after .head

theorem HandsOn.turn (hx : HandsOn x) (h : streamStep x (f, w) r = .ok (f', w')) :
    f'.args = f.args ∧ Turn x r f.pc f'.pc := by
  unfold streamStep bodyStep at h
  dsimp only at h
  cases hpc : f.pc with
  | head =>
    rw [hpc] at h
    dsimp only [headStmt] at h
    rw [hx.counted, if_neg (fun hc => nomatch hc.1)] at h
    split at h
    · cases h
    · cases h
      refine ⟨rfl, .goesOn ?_⟩
      cases x.setsNonblock with
      | true => exact .inl rfl
      | false => exact .inr rfl
  | fcntl =>
    rw [hpc] at h
    dsimp only at h
    split at h
    · cases h
      exact ⟨rfl, .nonblock⟩
    · cases h
  | call =>
    rw [hpc] at h
    cases h
    exact ⟨rfl, .calls⟩
  | test ret =>
    rw [hpc] at h
    dsimp only [testStmt] at h
    split at h
    · cases h
    · rename_i f₁ hv
      obtain ⟨rfl, hneg⟩ := hx.again _ _ _ _ hv
      cases h
      exact ⟨rfl, .fails hneg (.inl rfl)⟩
    · rename_i hv
      cases h
      exact ⟨rfl, .fails (hx.waits _ _ _ hv) (.inr rfl)⟩
  | register =>
    rw [hpc] at h
    cases h
    exact ⟨rfl, .waits⟩
  | after =>
    rw [hpc] at h
    dsimp only [afterStmt] at h
    split at h
    · cases h
    · rw [hx.bottom] at h
      cases h
      exact ⟨rfl, .again⟩

/-- Where the function returns, and what. -/
theorem HandsOn.ends (hx : HandsOn x) (h : streamStep x (f, w) r = .error (.returned v w')) :
    f.pc = .test v ∨ v < 0 ∧ ∀ ret, f.pc ≠ .test ret := by
  unfold streamStep bodyStep at h
  dsimp only at h
  cases hpc : f.pc with
  | head =>
    rw [hpc] at h
    dsimp only [headStmt] at h
    rw [hx.counted, if_neg (fun hc => nomatch hc.1)] at h
    split at h
    · cases h
      exact .inr ⟨by decide, fun _ hret => nomatch hret⟩
    · cases h
  | fcntl =>
    rw [hpc] at h
    dsimp only at h
    split at h <;> cases h
  | call | register =>
    rw [hpc] at h
    cases h
  | test ret =>
    rw [hpc] at h
    dsimp only [testStmt] at h
    split at h
    · rename_i v' hv
      cases h
      rw [hx.returns _ _ _ _ hv]
      exact .inl rfl
    · cases h
    · cases h
  | after =>
    rw [hpc] at h
    dsimp only [afterStmt] at h
    split at h
    · rename_i v' e hexp _
      cases h
      exact .inr ⟨hx.expired _ _ hexp, fun _ hret => nomatch hret⟩
    · rw [hx.bottom] at h
      cases h

/-- All the calls have failed, as the function reads their results. -/
def Failed (x : Wrapper) (t : Trace) : Prop := ∀ c ∈ t, x.reads c.2 < 0

/-- All the calls but the last have failed, and this one was answered by `v`. -/
def Answered (x : Wrapper) (t : Trace) (v : Int) : Prop :=
  ∃ t' c, t = t' ++ [c] ∧ x.reads c.2 = v ∧ Failed x t'

/-- What the loop keeps: every call was passed the same, and only the last may have succeeded. -/
structure Asking (x : Wrapper) (a : Args) (y : Traced) : Prop where
  args : y.1.1.args = a
  calls : ∀ c ∈ y.2, c.1 = x.args {args := a, pc := .head}
  answered : ∀ ret, y.1.1.pc = .test ret → Answered x y.2 ret
  failed : (∀ ret, y.1.1.pc ≠ .test ret) → Failed x y.2

theorem Asking.start (x : Wrapper) (a : Args) (w : World) : Asking x a (traced a w) :=
  ⟨rfl, (fun _ h => nomatch h), (fun _ h => nomatch h), fun _ _ h => nomatch h⟩

theorem Asking.step (hx : HandsOn x) (h : Asking x a y) (hs : tracedStep x y r = .ok y') : Asking x a y' := by
  obtain ⟨hstep, htrace⟩ := tracedStep_ok hs
  obtain ⟨⟨f, w⟩, t⟩ := y
  obtain ⟨⟨f', w'⟩, t'⟩ := y'
  obtain ⟨hargs, hcalls, hans, hfail⟩ := h
  dsimp only [noteCall] at hargs hcalls hans hfail hstep htrace
  obtain ⟨hargs', hturn⟩ := hx.turn hstep
  generalize hk : f.pc = k at hturn hans hfail htrace
  generalize hk' : f'.pc = k' at hturn
  have hquiet : k ≠ .call → (∀ ret, k' ≠ .test ret) → Failed x t → Asking x a ((f', w'), t') := by
    intro hne hnot hall
    rw [if_neg hne] at htrace
    subst htrace
    refine ⟨hargs'.trans hargs, hcalls, fun ret hret => ?_, fun _ => hall⟩
    exact absurd (hk'.symm.trans hret) (hnot ret)
  cases hturn with
  | goesOn hto =>
    refine hquiet (by decide) (fun ret hret => ?_) (hfail fun _ hret => nomatch hret)
    rcases hto with rfl | rfl <;> cases hret
  | nonblock => exact hquiet (by decide) (fun _ hret => nomatch hret) (hfail fun _ hret => nomatch hret)
  | calls =>
    rw [if_pos rfl] at htrace
    subst htrace
    have hall := hfail fun _ hret => nomatch hret
    refine ⟨hargs'.trans hargs, fun c hc => ?_, fun ret hret => ?_, fun hnot => absurd hk' (hnot _)⟩
    · rcases List.mem_append.mp hc with hc | hc
      · exact hcalls c hc
      · rw [List.mem_singleton.mp hc]
        exact hx.args _ _ hargs
    · cases hk'.symm.trans hret
      exact ⟨t, _, rfl, rfl, hall⟩
  | @fails ret k' hneg hto =>
    obtain ⟨t₁, c, rfl, hc, hall⟩ := hans ret rfl
    refine hquiet (fun hc => nomatch hc) (fun ret hret => ?_) fun c' hc' => ?_
    · rcases hto with rfl | rfl <;> cases hret
    · rcases List.mem_append.mp hc' with hc' | hc'
      · exact hall c' hc'
      · rw [List.mem_singleton.mp hc', hc]
        exact hneg
  | waits => exact hquiet (by decide) (fun _ hret => nomatch hret) (hfail fun _ hret => nomatch hret)
  | again => exact hquiet (by decide) (fun _ hret => nomatch hret) (hfail fun _ hret => nomatch hret)

theorem Asking.of_run (hx : HandsOn x) {w : World} {rs : List Answer}
    (h : Run.run (tracedStep x) (traced a w) rs = .ok y) : Asking x a y :=
  Run.run_invariant h (Run.each_of_forall (P := fun _ _ _ => True) (fun _ _ _ => trivial) _ _) (Asking.start x a w)
    fun _ _ _ hI _ hs => hI.step hx hs

theorem Asking.returns (hx : HandsOn x) (h : Asking x a y) (hs : tracedStep x y r = .error (.returned v w')) :
    Answered x y.2 v ∨ v < 0 ∧ Failed x y.2 := by
  obtain ⟨⟨f, w⟩, t⟩ := y
  have hend : streamStep x (f, w) r = .error (.returned v w') := Run.noted_error hs
  rcases hx.ends hend with hpc | ⟨hneg, hpc⟩
  · exact .inl (h.answered v hpc)
  · exact .inr ⟨hneg, h.failed hpc⟩

end Loop

/-- **The single calls hand on the one result that counts.** Every inner call of `accept`, `connect`,
`read`, `recv`, `recvmsg`, `recvfrom`, `sendmsg` and `sendto` is passed the arguments of the caller,
with `MSG_NOSIGNAL` where the source adds it. When the function returns, all the calls but the last
have failed; it returns what the last one did, or a negative value when that one has failed too. -/
theorem handed_on {e : Entry} (he : e.handsOn = true) {a : Args} {w : World} {rs : List Answer} {y : Traced}
    (hrun : Run.run (tracedStep e.wrapper) (traced a w) rs = .ok y) :
    (∀ c ∈ y.2, c.1 = e.wrapper.args {args := a, pc := .head}) ∧
    ∀ r v w', tracedStep e.wrapper y r = .error (.returned v w') →
      Answered e.wrapper y.2 v ∨ v < 0 ∧ Failed e.wrapper y.2 := by
  have hx := Entry.handsOn_wrapper he
  have hask := Asking.of_run hx hrun
  exact ⟨hask.calls, fun r v w' hs => hask.returns hx hs⟩

/-- Nothing has come; after the wait four bytes have. -/
def secondRecv : List Answer :=
  [{}, {}, {ret := -1, errno := .eagain}, {}, {}, {}, {}, {}, {ret := 4}]

theorem secondRecv_handed_on : ∃ y,
    Run.run (tracedStep uthreadRecv) (traced {fd := 5, length := 8} {}) secondRecv = .ok y ∧
    (∀ c ∈ y.2, c.1 = {fd := 5, length := 8, flags := msgNosignal}) ∧
    tracedStep uthreadRecv y {} = .error (.returned 4 y.1.2) ∧ (Answered uthreadRecv y.2 4 ∨ (4 : Int) < 0 ∧
      Failed uthreadRecv y.2) := by
  obtain ⟨y, hy, hend⟩ : ∃ y,
      Run.run (tracedStep uthreadRecv) (traced {fd := 5, length := 8} {}) secondRecv = .ok y ∧
        tracedStep uthreadRecv y {} = .error (.returned 4 y.1.2) := ⟨_, rfl, rfl⟩
  obtain ⟨hcalls, hret⟩ := handed_on (e := .recv) rfl hy
  exact ⟨y, hy, hcalls, hend, hret _ _ _ hend⟩

end UthreadRuntime.Hook
