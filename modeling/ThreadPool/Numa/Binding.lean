import ThreadPool.Pthread.Thread

/-!
# What the pool asks of libnuma

A worker binds its thread to its node before it enters its loop, and
`Enqueue` asks which node the caller is on. Both go through functions of
`congzhi::numa` that turn answers of libnuma and of the kernel into a result
or an exception. The answers are arguments here, one value for every call
that is made on the way. That a binding took effect is a line in the list of
affinities: which thread was bound to which node, in the order of the calls
of `pthread_setaffinity_np` that reported success.
-/

namespace ThreadPool

/-- What libnuma and the kernel answer while a thread is bound to a node: the
node's bit in `numa_get_mems_allowed`, and what `numa_node_size64`,
`numa_node_to_cpus` and `pthread_setaffinity_np` return. -/
structure Libnuma where
  memsAllowed : Bool := true
  nodeSize : Int := 1
  nodeToCpus : Int := 0
  setAffinity : Int := 0
  strerror : String := "Invalid argument"
  deriving DecidableEq, Repr

/-- Threads, by their `pthread_t`, and the nodes they have been bound to. -/
abbrev Affinities := List (Nat × Int)

/-- `numa::IsNumaNodeOnline`. -/
def isNumaNodeOnline (numaNodeCount : Nat) (os : Libnuma) (node : Int) : Bool :=
  if node < 0 ∨ node ≥ numaNodeCount then false else os.memsAllowed

/-- `numa::IsNumaNodeAvailable`. -/
def isNumaNodeAvailable (numaNodeCount : Nat) (os : Libnuma) (node : Int) : Bool :=
  if isNumaNodeOnline numaNodeCount os node then
    if os.nodeSize ≤ 0 then false else true
  else false

/-- `numa::BindThreadToNumaNode` for a given thread. -/
def bindThreadToNumaNode (numaNodeCount : Nat) (os : Libnuma) (bound : Affinities)
    (thread : Nat) (node : Int) : Except Exn Affinities :=
  if isNumaNodeAvailable numaNodeCount os node then
    if os.nodeToCpus ≠ 0 then
      .error (.runtimeError ("Failed to get CPUs for NUMA node" ++ toString node))
    else if os.setAffinity ≠ 0 then
      .error (.runtimeError ("Failed to set thread affinity: " ++ os.strerror))
    else .ok (bound ++ [(thread, node)])
  else .error (.runtimeError ("NUMA node" ++ toString node ++ " is not available"))

/-- `numa::GetNodeCurrentThreadIsOn`, from what `sched_getcpu` and
`numa_node_of_cpu` return. -/
def getNodeCurrentThreadIsOn (cpu nodeOfCpu : Int) (strerror : String) : Except Exn Int :=
  if cpu < 0 then
    .error (.runtimeError ("Failed to get current CPU: " ++ strerror))
  else if nodeOfCpu < 0 then
    .error (.runtimeError ("Failed to get NUMA node of CPU: " ++ strerror))
  else .ok nodeOfCpu

/-- A binding that reports success binds that thread to that node, and
undoes none. -/
theorem bound_of_bindThreadToNumaNode {numaNodeCount : Nat} {os : Libnuma}
    {bound bound' : Affinities} {thread : Nat} {node : Int}
    (h : bindThreadToNumaNode numaNodeCount os bound thread node = .ok bound') :
    bound' = bound ++ [(thread, node)] := by
  unfold bindThreadToNumaNode at h
  split at h
  · split at h
    · cases h
    · split at h
      · cases h
      · injection h with h
        exact h.symm
  · cases h

end ThreadPool
