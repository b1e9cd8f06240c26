import ThreadPool.Numa.Affinity
import ThreadPool.Numa.Dequeues
import ThreadPool.Numa.Locality
import ThreadPool.Numa.Submit

/-!
# What a task enqueues stays on its node

`Enqueue` asks `GetNodeCurrentThreadIsOn` where the caller is. A worker calls
its tasks, and its thread is bound: whatever CPU the scheduler has put it on is
one of the set that the binding passed, and these are CPUs of the worker's
node. So the answer is that node, `Enqueue` has nothing to fall back from, and
a task that a task enqueues is queued where the first one ran. It runs there,
and so do the tasks that it enqueues in turn.

The machine of the pool leaves the answers of libnuma open. Here they are given
by the CPUs of a machine, and it is known which task made a call.
-/

namespace ThreadPool.Numa

open Interleave Relation Machine

/-! ## The machine under the pool -/

/-- The CPUs of each node, as `numa_node_to_cpus` writes them and as
`numa_node_of_cpu` reports them. -/
structure Hardware where
  numaNodeToCpus : Nat → Bitmask
  numaNodeOfCpu : Nat → Nat
  agrees : ∀ node cpu, numaBitmaskIsbitset (numaNodeToCpus node) cpu = true →
    numaNodeOfCpu cpu = node

/-- The node a thread was bound to last. -/
def boundTo (bound : Affinities) (thread : Nat) : Option Int :=
  (bound.reverse.find? fun x => x.1 = thread).map Prod.snd

/-- A thread that was bound runs on a CPU of the set it was bound with. -/
def Hardware.runsOn (hw : Hardware) (bound : Affinities) (thread cpu : Nat) : Bool :=
  match boundTo bound thread with
  | some node => cpuIsset cpu (hw.numaNodeToCpus node.toNat).toCpuSet
  | none => true

/-- Who made a call of `Enqueue`: the thread, and the task it was inside. -/
structure Maker where
  thread : Nat
  task : Nat
  deriving DecidableEq, Repr

/-- The pool, and who made each call; `none` is a thread that is none of the
pool's. -/
structure Family where
  sys : State
  makers : List (Option Maker) := []

/-- A step of the pool, or the task inside which worker `j` is calls
`Enqueue`. -/
inductive FamilyAction where
  | act (a : Action)
  | nest (j : Nat) (callable : Bool)

/-- What libnuma and the scheduler answer to a call that a worker's thread
makes, where they answer at all. -/
def Hardware.answers (hw : Hardware) (s : Family) : Action → Bool
  | .locate k cpu nodeOfCpu _ =>
      match s.makers[k]? with
      | some (some m) =>
          cpu < 0 || nodeOfCpu < 0 ||
            hw.runsOn s.sys.sh.bound m.thread cpu.toNat &&
              nodeOfCpu = hw.numaNodeOfCpu cpu.toNat
      | _ => true
  | _ => true

def familyStep (cfg : Config) (hw : Hardware) (s : Family) : FamilyAction → Option Family
  | .act a =>
      if hw.answers s a then
        (step cfg s.sys a).map fun sys =>
          { sys := sys, makers := s.makers ++ if a.brings then [none] else [] }
      else none
  | .nest j callable =>
      match s.sys.workers[j]? with
      | none => none
      | some w =>
          match w.native.pc with
          | .running t =>
              (step cfg s.sys (.call callable)).map fun sys =>
                { sys := sys, makers := s.makers ++ [some ⟨w.native.self, t.id⟩] }
          | _ => none

/-- The pool on such a machine. That a worker does nothing else while its task
is inside a call is not asked for. -/
def family (cfg : Config) (hw : Hardware) : Machine Family FamilyAction where
  init := { sys := (pool cfg).init }
  step := familyStep cfg hw

/-- Task `j` made the call of `Enqueue` that brought task `k`. -/
def Family.Makes (s : Family) (j k : Nat) : Prop :=
  ∃ m, s.makers[k]? = some (some m) ∧ m.task = j

/-! ## Bindings -/

/-- Has yet to be bound. -/
def WorkerPc.unbound? : WorkerPc → Bool
  | .registration | .readNode | .bind => true
  | _ => false

/-- A worker on its way to the binding: its thread is not bound yet, and the
node it is going to be bound to exists. -/
structure Worker.Coming (cfg : Config) (bound : Affinities) (w : Worker) : Prop where
  node : w.native.pc = .bind → w.native.nodeNum < cfg.numaNodeCount
  thread : w.native.pc.unbound? = true → ∀ x ∈ bound, x.1 ≠ w.native.self

/-- The bindings are to nodes that exist and of threads that exist, and no
thread is bound twice. -/
structure Loyal (cfg : Config) (s : State) : Prop where
  coming : ∀ w ∈ s.workers, w.Coming cfg s.sh.bound
  range : ∀ x ∈ s.sh.bound, 0 ≤ x.2 ∧ x.2 < cfg.numaNodeCount
  given : ∀ x ∈ s.sh.bound, x.1 < s.nextHandle
  once : ∀ x ∈ s.sh.bound, ∀ y ∈ s.sh.bound, x.1 = y.1 → x.2 = y.2

theorem Worker.coming_of_past {cfg : Config} {bound : Affinities} {w : Worker}
    (h : w.native.pc.unbound? = false) : w.Coming cfg bound := by
  constructor
  · intro hpc
    rw [hpc] at h
    cases h
  · intro hpc
    rw [h] at hpc
    cases hpc

theorem Loyal.frame {cfg : Config} {s s' : State} (hs : Loyal cfg s)
    (hbound : s'.sh.bound = s.sh.bound) (hnext : s.nextHandle ≤ s'.nextHandle)
    (hworkers : ∀ w ∈ s'.workers, w.Coming cfg s.sh.bound) : Loyal cfg s' := by
  constructor <;> rw [hbound]
  · exact hworkers
  · exact hs.range
  · exact fun x hx => Nat.lt_of_lt_of_le (hs.given x hx) hnext
  · exact hs.once

theorem Loyal.notifyAll {cfg : Config} {s : State} (hs : Loyal cfg s) (n : Nat) :
    ∀ w ∈ Numa.notifyAll n s.workers, w.Coming cfg s.sh.bound :=
  forall_mem_notifyAll hs.coming fun _ _ _ => Worker.coming_of_past rfl

theorem WorkerHop.coming {cfg : Config} {s : State} {w w' : Worker} {bound : Affinities}
    (h : WorkerHop cfg s w w') (hw : w.Coming cfg bound) : w'.Coming cfg bound := by
  cases h with
  | registers hpc =>
      have hthread := hw.thread (by rw [hpc]; rfl)
      exact ⟨nofun, fun _ => hthread⟩
  | readsNode n hpc hn hlt =>
      have hthread := hw.thread (by rw [hpc]; rfl)
      exact ⟨fun _ => hlt, fun _ => hthread⟩
  | _ => exact Worker.coming_of_past rfl

theorem LoopStep.not_unbound {sh sh' : Shared} {nd nd' : NodeData} {free throws : Bool}
    {agent : Agent} {pc pc' : WorkerPc} {fl fl' : Flags}
    (h : LoopStep sh nd free agent throws pc fl sh' nd' pc' fl') : pc'.unbound? = false := by
  cases h <;> rfl

theorem Loyal.binds {cfg : Config} {s : State} {j : Nat} {w : Worker} (hs : Loyal cfg s)
    (hhanded : Handed s) (hw : s.workers[j]? = some w) (hpc : w.native.pc = .bind) :
    Loyal cfg ({ s with
      sh.bound := s.sh.bound ++ [(w.native.self, (w.native.nodeNum : Int))] }.put j
        (w.goto .setValid)) := by
  have hmem := List.mem_of_getElem? hw
  have hnode := (hs.coming w hmem).node hpc
  have hthread := (hs.coming w hmem).thread (by rw [hpc]; rfl)
  have hnew : ∀ {P : Nat × Int → Prop}, (∀ x ∈ s.sh.bound, P x) →
      P (w.native.self, (w.native.nodeNum : Int)) →
      ∀ x ∈ s.sh.bound ++ [(w.native.self, (w.native.nodeNum : Int))], P x := by
    intro P hold hlast x hx
    rcases List.mem_append.mp hx with hmem | hx
    · exact hold x hmem
    · rw [List.mem_singleton.mp hx]
      exact hlast
  constructor
  · intro v hv
    obtain ⟨i, hi⟩ := List.mem_iff_getElem?.mp hv
    by_cases hij : j = i
    · subst hij
      rw [State.put, List.getElem?_set_self (List.getElem?_eq_some_iff.mp hw).1,
        Option.some.injEq] at hi
      rw [← hi]
      exact Worker.coming_of_past rfl
    · -- another worker has another thread
      rw [State.put, List.getElem?_set_ne hij] at hi
      have hcoming := hs.coming v (List.mem_of_getElem? hi)
      refine ⟨hcoming.node, fun hunbound => hnew (hcoming.thread hunbound) fun hsame => ?_⟩
      have hj : s.selves[j]? = some w.native.self := by
        rw [State.selves, List.getElem?_map, hw]
        rfl
      have hi' : s.selves[i]? = some w.native.self := by
        rw [State.selves, List.getElem?_map, hi]
        exact congrArg some hsame.symm
      exact hij ((List.getElem?_inj (List.getElem?_eq_some_iff.mp hj).1
        hhanded.distinct).mp (hj.trans hi'.symm))
  · exact hnew hs.range ⟨Int.natCast_nonneg _, Int.ofNat_lt.mpr hnode⟩
  · exact hnew hs.given (hhanded.given _ (List.mem_map_of_mem hmem))
  · refine hnew (fun x hx => hnew (hs.once x hx) fun hsame => ?_) (hnew (fun y hy hsame => ?_)
      fun _ => rfl)
    · exact absurd hsame (hthread x hx)
    · exact absurd hsame.symm (hthread y hy)

theorem Move.loyal {cfg : Config} {s s' : State} {a : Action} (hhanded : Handed s)
    (hs : Loyal cfg s) (h : Move cfg s a s') : Loyal cfg s' := by
  cases h with
  | workerHop _ hw hhop =>
      exact hs.frame rfl le_rfl
        (forall_mem_set hs.coming (hhop.coming (hs.coming _ (List.mem_of_getElem? hw))))
  | binds hw hpc => exact hs.binds hhanded hw hpc
  | loops hw _ hstep =>
      exact hs.frame hstep.bound.2 le_rfl
        (forall_mem_set hs.coming (Worker.coming_of_past hstep.not_unbound))
  | notifies _ _ hw =>
      exact hs.frame rfl le_rfl (forall_mem_set hs.coming (Worker.coming_of_past rfl))
  | spawns | expandSpawns =>
      refine hs.frame rfl (Nat.le_succ _) fun w hw => ?_
      rcases List.mem_append.mp hw with hold | hnew
      · exact hs.coming w hold
      · rw [List.mem_singleton.mp hnew]
        exact ⟨nofun, fun _ x hx => Nat.ne_of_lt (hs.given x hx)⟩
  | notifiesAll | shrinkNotifies => exact hs.frame rfl le_rfl (hs.notifyAll _)
  | setsExit _ hw | joined _ hw | marks _ _ hw =>
      have hold := hs.coming _ (List.mem_of_getElem? hw)
      exact hs.frame rfl le_rfl (forall_mem_set hs.coming ⟨hold.node, hold.thread⟩)
  | starts => exact hs.frame rfl (Nat.le_succ _) hs.coming
  | cleared => exact hs.frame rfl le_rfl fun _ hw => absurd hw List.not_mem_nil
  | _ => exact hs.frame rfl le_rfl hs.coming

theorem loyal_of_reachable {cfg : Config} {s : State} (hr : (pool cfg).Reachable s) :
    Loyal cfg s := by
  refine hr.invariant ?_ fun _ _ _ hr hs hstep =>
    (move_of_step hr hstep).loyal (handed_of_reachable hr) hs
  constructor <;> exact fun _ h => absurd h List.not_mem_nil

theorem Move.bound_kept {cfg : Config} {s s' : State} {a : Action} {x : Nat × Int}
    (h : Move cfg s a s') (hx : x ∈ s.sh.bound) : x ∈ s'.sh.bound := by
  cases h with
  | binds => exact List.mem_append_left _ hx
  | loops _ _ hstep =>
      rw [← hstep.bound.2] at hx
      exact hx
  | _ => exact hx

/-! ## What the machine answers -/

/-- A thread that is bound is told the node it is bound to. -/
theorem Hardware.told {cfg : Config} {hw : Hardware} {s : State} {thread cpu n : Nat}
    (hs : Loyal cfg s) (hbound : (thread, (n : Int)) ∈ s.sh.bound)
    (hcpu : hw.runsOn s.sh.bound thread cpu = true) : hw.numaNodeOfCpu cpu = n := by
  have hto : boundTo s.sh.bound thread = some (n : Int) := by
    cases hfind : s.sh.bound.reverse.find? (fun x => x.1 = thread) with
    | none =>
        have hnone := List.find?_eq_none.mp hfind _ (List.mem_reverse.mpr hbound)
        simp at hnone
    | some x =>
        have hx := List.mem_reverse.mp (List.mem_of_find?_eq_some hfind)
        have hthread := List.find?_some hfind
        rw [boundTo, hfind, Option.map_some]
        exact congrArg some (hs.once x hx _ hbound (of_decide_eq_true hthread))
  rw [Hardware.runsOn, hto] at hcpu
  have hset := cpuIsset_toCpuSet (hw.numaNodeToCpus n) cpu
  rw [show cpuIsset cpu (hw.numaNodeToCpus n).toCpuSet = true from hcpu] at hset
  exact hw.agrees n cpu (Bool.and_eq_true_iff.mp hset.symm).2

theorem nodeFor_bound {cfg : Config} {s : State} {thread n : Nat} (hs : Loyal cfg s)
    (hbound : (thread, (n : Int)) ∈ s.sh.bound) : nodeFor cfg n = n := by
  have hrange := hs.range _ hbound
  exact if_neg (by omega)

/-! ## Who made which call -/

/-- The thread is bound to node `n`, and the task it was inside was queued
there. -/
def Maker.At (m : Maker) (s : State) (n : Nat) : Prop :=
  (m.thread, (n : Int)) ∈ s.sh.bound ∧ ∃ t ∈ accepted (s.node n).hist, t.id = m.task

/-- A call made inside a task knows the node of that task, if it knows any. -/
structure Bred (s : Family) : Prop where
  counted : s.makers.length = s.sys.calls.length
  home : ∀ (k : Nat) (m : Maker), s.makers[k]? = some (some m) → ∃ n, m.At s.sys n ∧
    ∀ c : Call, s.sys.calls[k]? = some c → c.pc.located = true → c.nodeNum = n

/-- A step of the family is a step of the pool that libnuma agrees to, and a
call has a maker where a worker made it inside its task. -/
theorem familyStep_cases {cfg : Config} {hw : Hardware} {s s' : Family} {x : FamilyAction}
    (h : familyStep cfg hw s x = some s') :
    ∃ a news, step cfg s.sys a = some s'.sys ∧ hw.answers s a = true ∧
      s'.makers = s.makers ++ news ∧ news.length = a.brings.toNat ∧
      ∀ m, some m ∈ news → ∃ callable w t, a = .call callable ∧ w ∈ s.sys.workers ∧
        w.native.pc = .running t ∧ m = ⟨w.native.self, t.id⟩ := by
  cases x with
  | act a =>
      simp only [familyStep] at h
      split at h
      · next hanswers =>
          obtain ⟨sys, hstep, rfl⟩ := Option.map_eq_some_iff.mp h
          refine ⟨a, _, hstep, hanswers, rfl, ?_, ?_⟩
          · cases a.brings <;> rfl
          · cases a.brings <;> simp
      · cases h
  | nest j callable =>
      simp only [familyStep] at h
      split at h
      · cases h
      · next w hw =>
          split at h
          · next t hpc =>
              obtain ⟨sys, hstep, rfl⟩ := Option.map_eq_some_iff.mp h
              refine ⟨.call callable, _, hstep, rfl, rfl, rfl, fun m hm => ?_⟩
              rw [List.mem_singleton, Option.some.injEq] at hm
              exact ⟨callable, w, t, rfl, List.mem_of_getElem? hw, hpc, hm⟩
          · cases h

theorem Maker.At.step {cfg : Config} {m : Maker} {s s' : State} {a : Action} {n : Nat}
    (hr : (pool cfg).Reachable s) (hm : m.At s n) (hstep : step cfg s a = some s') :
    m.At s' n := by
  obtain ⟨hbound, t, ht, hid⟩ := hm
  exact ⟨(move_of_step hr hstep).bound_kept hbound, t, accepted_of_step hr hstep ht, hid⟩

/-- A worker inside a task is bound to the node the task was queued on. -/
theorem at_of_running {cfg : Config} {s : State} {w : Worker} {t : Task}
    (hr : (pool cfg).Reachable s) (hw : w ∈ s.workers) (hpc : w.native.pc = .running t) :
    Maker.At ⟨w.native.self, t.id⟩ s w.native.nodeNum := by
  have hplaced := (located_of_reachable hr).placed w hw
  exact ⟨hplaced.bound (by rw [hpc]; rfl), t, accepted_of_hands hr hw (Or.inr hpc), rfl⟩

/-- A call of a thread that is bound gets to know the node the thread is bound
to. -/
theorem located_at_home {cfg : Config} {hw : Hardware} {s : Family} {k n : Nat} {m : Maker}
    {cpu nodeOfCpu node : Int} {strerror : String} (hs : Loyal cfg s.sys)
    (hm : s.makers[k]? = some (some m)) (hbound : (m.thread, (n : Int)) ∈ s.sys.sh.bound)
    (hanswers : hw.answers s (.locate k cpu nodeOfCpu strerror) = true)
    (hnode : getNodeCurrentThreadIsOn cpu nodeOfCpu strerror = .ok node) :
    nodeFor cfg node = n := by
  simp only [Hardware.answers, hm] at hanswers
  unfold getNodeCurrentThreadIsOn at hnode
  split at hnode
  · cases hnode
  · next hcpu =>
      split at hnode
      · cases hnode
      · next hof =>
          cases hnode
          simp only [hcpu, hof, decide_false, Bool.false_or, Bool.and_eq_true,
            decide_eq_true_eq] at hanswers
          obtain ⟨hruns, hanswer⟩ := hanswers
          rw [hanswer, Hardware.told hs hbound hruns]
          exact nodeFor_bound hs hbound

theorem Bred.step {cfg : Config} {hw : Hardware} {s s' : Family} {x : FamilyAction}
    (hr : (pool cfg).Reachable s.sys) (hs : Bred s)
    (hstep : familyStep cfg hw s x = some s') : Bred s' := by
  obtain ⟨a, news, hsys, hanswers, hmakers, hlength, hnews⟩ := familyStep_cases hstep
  have hloyal := loyal_of_reachable hr
  have hold : ∀ {k : Nat} {m : Maker}, s.makers[k]? = some (some m) →
      (∀ c : Call, s'.sys.calls[k]? = some c → c.pc.located = true →
        ∃ c₀ : Call, s.sys.calls[k]? = some c₀ ∧ c₀.pc.located = true ∧ c.nodeNum = c₀.nodeNum) →
      ∃ n, m.At s'.sys n ∧
        ∀ c : Call, s'.sys.calls[k]? = some c → c.pc.located = true →
          c.nodeNum = n := by
    intro k m hm hkept
    obtain ⟨n, hat, hknows⟩ := hs.home k m hm
    refine ⟨n, hat.step hr hsys, fun c hc hlocated => ?_⟩
    obtain ⟨c₀, hc₀, hlocated₀, hsame⟩ := hkept c hc hlocated
    rw [hsame, hknows c₀ hc₀ hlocated₀]
  cases step_turn (wired_of_reachable hr) hsys with
  | comes c hbrings _ hcalls hcomes =>
      rw [hbrings] at hlength
      obtain ⟨new, rfl⟩ := List.length_eq_one_iff.mp hlength
      refine ⟨by rw [hmakers, hcalls, List.length_append, List.length_append, hs.counted]; rfl,
        fun k m hm => ?_⟩
      rw [hmakers] at hm
      by_cases hk : k < s.makers.length
      · rw [List.getElem?_append_left hk] at hm
        refine hold hm fun c' hc' hlocated => ⟨c', ?_, hlocated, rfl⟩
        rwa [hcalls, List.getElem?_append_left (hs.counted ▸ hk)] at hc'
      · -- the new one: it does not know its node
        have hmem : some m ∈ [new] := by
          rw [List.getElem?_append_right (Nat.le_of_not_lt hk)] at hm
          exact List.mem_of_getElem? hm
        obtain ⟨callable, w, t, rfl, hw, hpc, rfl⟩ := hnews m hmem
        refine ⟨_, (at_of_running hr hw hpc).step hr hsys, fun c' hc' hlocated => ?_⟩
        rw [hcalls, List.getElem?_append_right (hs.counted ▸ Nat.le_of_not_lt hk)] at hc'
        rw [List.mem_singleton.mp (List.mem_of_getElem? hc')] at hlocated
        obtain ⟨_, _, hother⟩ := hcomes hlocated
        cases hother
  | stays hbrings _ hcalls =>
      rw [hbrings] at hlength
      obtain rfl := List.length_eq_zero_iff.mp hlength
      rw [List.append_nil] at hmakers
      refine ⟨by rw [hmakers, hcalls, hs.counted], fun k m hm => ?_⟩
      rw [hmakers] at hm
      refine hold hm fun c' hc' hlocated => ⟨c', ?_, hlocated, rfl⟩
      rwa [hcalls] at hc'
  | moves k₀ c c' hbrings hc hcalls _ _ _ _ hmoves =>
      rw [hbrings] at hlength
      obtain rfl := List.length_eq_zero_iff.mp hlength
      rw [List.append_nil] at hmakers
      refine ⟨by rw [hmakers, hcalls, List.length_set, hs.counted], fun k m hm => ?_⟩
      rw [hmakers] at hm
      by_cases hk : k₀ = k
      · subst hk
        have hc' : s'.sys.calls[k₀]? = some c' := by
          rw [hcalls]
          exact List.getElem?_set_self (List.getElem?_eq_some_iff.mp hc).1
        obtain ⟨n, hat, hknows⟩ := hs.home k₀ m hm
        refine ⟨n, hat.step hr hsys, fun d hd hlocated => ?_⟩
        rw [hc', Option.some.injEq] at hd
        subst hd
        rcases hmoves hlocated with ⟨hlocated₀, hsame⟩ | ⟨cpu, nodeOfCpu, strerror, node, rfl,
          hnode, hnew⟩
        · rw [hsame, hknows c hc hlocated₀]
        · rw [hnew]
          exact located_at_home hloyal hm hat.1 hanswers hnode
      · refine hold hm fun d hd hlocated => ⟨d, ?_, hlocated, rfl⟩
        rwa [hcalls, List.getElem?_set_ne hk] at hd

theorem bred_of_reachable {cfg : Config} {hw : Hardware} {s : Family}
    (hr : (family cfg hw).Reachable s) : (pool cfg).Reachable s.sys ∧ Bred s := by
  refine hr.invariant (P := fun s => (pool cfg).Reachable s.sys ∧ Bred s) ?_
    fun s x s' _ hs hstep => ?_
  · exact ⟨ReflTransGen.refl, rfl, fun k m hm => by cases hm⟩
  · obtain ⟨a, -, hsys, -⟩ := familyStep_cases hstep
    exact ⟨hs.1.step trivial hsys, hs.2.step hs.1 hstep⟩

/-! ## Descendants -/

theorem CallPc.located_of_pushed {pc : CallPc} (h : pc.pushed = true) : pc.located = true := by
  cases pc <;> first | rfl | cases h

/-- A task is queued where the one that made it was. -/
theorem Bred.same_node {cfg : Config} {s : Family} {m n : Nat} {t u : Task}
    (hr : (pool cfg).Reachable s.sys) (hs : Bred s) (hmakes : s.Makes t.id u.id)
    (ht : t ∈ accepted (s.sys.node m).hist) (hu : u ∈ accepted (s.sys.node n).hist) :
    n = m := by
  have hnum := numbered_of_reachable hr
  obtain ⟨maker, hmaker, htask⟩ := hmakes
  obtain ⟨home, ⟨-, t', ht', hid⟩, hknows⟩ := hs.home _ maker hmaker
  obtain ⟨d, hd, hdt, -, -⟩ := hnum.known m t ht
  obtain ⟨d', hd', hdt', -, -⟩ := hnum.known home t' ht'
  rw [hid, htask, hd, Option.some.injEq] at hd'
  rw [← hdt', ← hd', hdt] at ht'
  obtain ⟨c, hc, -, hnode, hpushed⟩ := hnum.known n u hu
  rw [hknows c hc (CallPc.located_of_pushed hpushed), Int.toNat_natCast] at hnode
  rw [← hnode, hnum.same_node ht ht']

theorem Bred.accepted_of_makes {s : Family} {j k : Nat} (hs : Bred s)
    (hmakes : s.Makes j k) : ∃ n, ∃ t ∈ accepted (s.sys.node n).hist, t.id = j := by
  obtain ⟨maker, hmaker, htask⟩ := hmakes
  obtain ⟨n, ⟨-, t, ht, hid⟩, -⟩ := hs.home _ maker hmaker
  exact ⟨n, t, ht, hid.trans htask⟩

theorem diagonal_agrees (node cpu : Nat)
    (h : numaBitmaskIsbitset ⟨List.replicate node false ++ [true]⟩ cpu = true) : cpu = node := by
  rw [numaBitmaskIsbitset, List.getD_eq_getElem?_getD] at h
  rcases Nat.lt_trichotomy cpu node with hlt | heq | hgt
  · rw [List.getElem?_append_left (by rwa [List.length_replicate]),
      List.getElem?_replicate, if_pos hlt] at h
    cases h
  · exact heq
  · rw [List.getElem?_eq_none (by
      rw [List.length_append, List.length_replicate, List.length_singleton]
      omega)] at h
    cases h

/-- One CPU a node, of the same number. -/
def Hardware.diagonal : Hardware where
  numaNodeToCpus := fun node => ⟨List.replicate node false ++ [true]⟩
  numaNodeOfCpu := id
  agrees := diagonal_agrees

/-- The task inside which worker `j` is enqueues another as call number `k`, on
CPU `n`. -/
def nesting (j k n : Nat) : List FamilyAction :=
  [.nest j true, .act (.enqueue k none), .act (.locate k n n ""), .act (.enqueue k none),
    .act (.enqueue k none), .act (.enqueue k none), .act (.enqueue k none)]

end ThreadPool.Numa
