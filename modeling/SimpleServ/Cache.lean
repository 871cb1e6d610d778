import Mathlib
import SimpleServ.Cxx.Outcome
import SimpleServ.Lib.Transition

/-
  `Cache` over a storage (cache.hpp), and its `InMemoryStore`.

  The header is included nowhere and no compiler takes it: `Storage<K, V>` is written for a
  parameter that is a type, and the queue is one of references. It is read here as a queue of
  keys beside a storage. Nothing reads `defaultLifetime`; `FileStore` is left out.

  `put` makes room by the length of the queue, but no function puts a key into the queue. So a
  cache is its storage (`run_eq`), and `evict` is never called. `sound_throughout_iff`: the
  storage stays within the capacity exactly when its users see to that.
-/

namespace SimpleServ

open SimpleServ.Cxx SimpleServ.Lib Outcome

/-- What the template asks of its storage. -/
class Storage (S : Type) (K V : outParam Type) where
  get : S → K → Option V × S
  put : S → K → V → S
  remove : S → K → S
  clear : S → S

structure InMemoryStore (K V : Type) [BEq K] [Hashable K] where
  store : Std.ExtHashMap K V

section Store

variable {K V : Type} [DecidableEq K] [Hashable K]

instance : Storage (InMemoryStore K V) K V where
  get storage key := (storage.store[key]?, storage)
  put storage key value := ⟨storage.store.insert key value⟩
  remove storage key := ⟨storage.store.erase key⟩
  clear _ := ⟨∅⟩

end Store

/-! ## The cache -/

structure Cache (K S : Type) where
  queue : List K := []
  storage : S
  capacity : Int32

/-- An `int` that is compared with a `size_t` becomes one. -/
def toSize (n : Int32) : Nat := (n.toInt % 2 ^ 64).toNat

/-- The calls of the cache's users. -/
inductive CacheCall (K V : Type) where
  | get (key : K)
  | put (key : K) (value : V)
  | remove (key : K)
  | clear
  deriving DecidableEq, Repr

namespace Cache

section Functions

variable {K V S : Type} [Storage S K V]

def get (cache : Cache K S) (key : K) : Option V × Cache K S :=
  let (value, storage) := Storage.get cache.storage key
  (value, { cache with storage := storage })

def remove (cache : Cache K S) (key : K) : Cache K S :=
  { cache with storage := Storage.remove cache.storage key }

/-- `front` of an empty queue is outside its precondition. -/
def evict (cache : Cache K S) : Outcome (Cache K S) :=
  match cache.queue with
  | [] => ub
  | key :: queue => ret (remove { cache with queue := queue } key)

/-- The condition under which `put` calls `evict`. -/
def Evicts (cache : Cache K S) : Prop := toSize cache.capacity ≤ cache.queue.length

instance : DecidablePred (Evicts : Cache K S → Prop) := fun _ => Nat.decLe _ _

def put (cache : Cache K S) (key : K) (value : V) : Outcome (Cache K S) := do
  let cache ← if cache.Evicts then cache.evict else ret cache
  return { cache with storage := Storage.put cache.storage key value }

def clear (cache : Cache K S) : Cache K S :=
  { cache with storage := Storage.clear cache.storage, queue := [] }

def call (cache : Cache K S) : CacheCall K V → Outcome (Cache K S)
  | .get key => ret (cache.get key).2
  | .put key value => cache.put key value
  | .remove key => ret (cache.remove key)
  | .clear => ret cache.clear

def step (cache : Cache K S) (call : CacheCall K V) : Option (Cache K S) :=
  match cache.call call with
  | ret cache => some cache
  | _ => none

/-- What a call does to the storage, eviction apart. -/
def applyCall (storage : S) : CacheCall K V → S
  | .get key => (Storage.get storage key).2
  | .put key value => Storage.put storage key value
  | .remove key => Storage.remove storage key
  | .clear => Storage.clear storage

end Functions

/-! ## A cache is its storage -/

variable {K V S : Type}

theorem toSize_pos {n : Int32} (h : 0 < n) : 0 < toSize n := by
  have hpos : 0 < n.toInt := Int32.lt_iff_toInt_lt.mp h
  have hlt := n.toInt_lt
  unfold toSize
  omega

/-- With nothing in the queue, no call ends outside a precondition, and each does to the storage
    what it does there without a cache. -/
theorem step_eq [Storage S K V] {capacity : Int32} (h : 0 < capacity) (storage : S)
    (call : CacheCall K V) :
    step ⟨[], storage, capacity⟩ call = some ⟨[], applyCall storage call, capacity⟩ := by
  cases call with
  | get key => rfl
  | remove key => rfl
  | clear => rfl
  | put key value =>
    have he : ¬ (⟨[], storage, capacity⟩ : Cache K S).Evicts := Nat.not_le.mpr (toSize_pos h)
    unfold step call put
    dsimp only
    rw [if_neg he]
    rfl

theorem run_eq [Storage S K V] {capacity : Int32} (h : 0 < capacity) (storage : S)
    (calls : List (CacheCall K V)) :
    run step ⟨[], storage, capacity⟩ calls =
      some ⟨[], calls.foldl applyCall storage, capacity⟩ := by
  induction calls generalizing storage with
  | nil => rfl
  | cons call calls ih => exact run_cons.mpr ⟨_, step_eq h storage call, ih _⟩

/-! ## The capacity -/

variable [DecidableEq K] [Hashable K]

def new (K V : Type) [DecidableEq K] [Hashable K] (capacity : Int32) :
    Cache K (InMemoryStore K V) := { storage := ⟨∅⟩, capacity := capacity }

/-- The number of keys that are present. -/
def size (cache : Cache K (InMemoryStore K V)) : Nat := cache.storage.store.size

/-- What users expect of a cache in whatever state they meet it. -/
structure Sound (cache : Cache K (InMemoryStore K V)) : Prop where
  bounded : (cache.size : Int) ≤ cache.capacity.toInt
  evicts : cache.Evicts → cache.queue ≠ []
  found : ∀ key value, ∃ cache', cache.put key value = ret cache' ∧
    (cache'.get key).1 = some value

/-- A key that is put is there already, or there is room for one more. -/
def HasRoom (cache : Cache K (InMemoryStore K V)) : CacheCall K V → Prop
  | .put key _ => key ∈ cache.storage.store ∨ (cache.size : Int) < cache.capacity.toInt
  | _ => True

variable {capacity : Int32} {storage : InMemoryStore K V}

theorem sound_iff (h : 0 < capacity) : (⟨[], storage, capacity⟩ : Cache K _).Sound ↔
    (storage.store.size : Int) ≤ capacity.toInt := by
  have he : ¬ (⟨[], storage, capacity⟩ : Cache K (InMemoryStore K V)).Evicts :=
    Nat.not_le.mpr (toSize_pos h)
  refine ⟨Sound.bounded, fun hb => ⟨hb, fun hev => absurd hev he, fun key value => ?_⟩⟩
  refine ⟨⟨[], ⟨storage.store.insert key value⟩, capacity⟩, ?_, ?_⟩
  · unfold put
    rw [if_neg he]
    rfl
  · exact Std.ExtHashMap.getElem?_insert_self

/-- A call keeps to the capacity exactly when there is room for it. -/
theorem bounded_applyCall_iff (hb : (storage.store.size : Int) ≤ capacity.toInt)
    (call : CacheCall K V) : ((applyCall storage call).store.size : Int) ≤ capacity.toInt ↔
      HasRoom ⟨[], storage, capacity⟩ call := by
  cases call with
  | get key => exact iff_of_true hb trivial
  | remove key =>
    have hle : (storage.store.erase key).size ≤ storage.store.size := Std.ExtHashMap.size_erase_le
    exact iff_of_true (by show ((storage.store.erase key).size : Int) ≤ _; omega) trivial
  | clear =>
    have hz : (∅ : Std.ExtHashMap K V).size = 0 := Std.ExtHashMap.size_empty
    exact iff_of_true (by show ((∅ : Std.ExtHashMap K V).size : Int) ≤ _; omega) trivial
  | put key value =>
    show ((storage.store.insert key value).size : Int) ≤ _ ↔
      key ∈ storage.store ∨ (storage.store.size : Int) < capacity.toInt
    rw [Std.ExtHashMap.size_insert]
    by_cases hk : key ∈ storage.store
    · rw [if_pos hk]
      exact iff_of_true hb (Or.inl hk)
    · rw [if_neg hk]
      simp only [hk, false_or]
      omega

/-- By induction on the calls. -/
theorem bounded_throughout_iff (h : 0 < capacity) (storage : InMemoryStore K V)
    (calls : List (CacheCall K V)) :
    (∀ before, before <+: calls →
      ((before.foldl applyCall storage).store.size : Int) ≤ capacity.toInt) ↔
      (storage.store.size : Int) ≤ capacity.toInt ∧
        StepsMeet HasRoom step ⟨[], storage, capacity⟩ calls := by
  induction calls generalizing storage with
  | nil =>
    simp only [List.prefix_nil, forall_eq, List.foldl_nil]
    exact (and_iff_left trivial).symm
  | cons call calls ih =>
    have hsteps : StepsMeet HasRoom step ⟨[], storage, capacity⟩ (call :: calls) ↔
        HasRoom ⟨[], storage, capacity⟩ call ∧
          StepsMeet HasRoom step ⟨[], applyCall storage call, capacity⟩ calls := by
      refine and_congr_right fun _ => ⟨fun hall => hall _ (step_eq h storage call), ?_⟩
      intro hs t ht
      rw [step_eq h, Option.some.injEq] at ht
      exact ht ▸ hs
    rw [hsteps]
    constructor
    · intro hall
      have hb := hall [] List.nil_prefix
      have hrest := (ih _).mp fun before hp =>
        hall (call :: before) (List.cons_prefix_cons.mpr ⟨rfl, hp⟩)
      exact ⟨hb, (bounded_applyCall_iff hb call).mp hrest.1, hrest.2⟩
    · rintro ⟨hb, hroom, hrest⟩ before hp
      have hnext := (bounded_applyCall_iff hb call).mpr hroom
      rcases List.prefix_cons_iff.mp hp with rfl | ⟨later, rfl, hl⟩
      · exact hb
      · exact (ih _).mpr ⟨hnext, hrest⟩ later hl

/-- **A cache is sound in every state of a run exactly when each key that is put finds room.**
    It makes none itself. -/
theorem sound_throughout_iff (capacity : Int32) (h : 0 < capacity) (calls : List (CacheCall K V)) :
    (∀ before, before <+: calls →
      ∃ cache, run step (new K V capacity) before = some cache ∧ cache.Sound) ↔
      StepsMeet HasRoom step (new K V capacity) calls := by
  have hempty : (((⟨∅⟩ : InMemoryStore K V).store.size : Int)) ≤ capacity.toInt := by
    have hpos : 0 < capacity.toInt := Int32.lt_iff_toInt_lt.mp h
    rw [Std.ExtHashMap.size_empty]
    omega
  have hiff := bounded_throughout_iff h ⟨∅⟩ calls
  rw [and_iff_right hempty] at hiff
  refine Iff.trans (forall₂_congr fun before _ => ?_) hiff
  rw [new, run_eq h, ← sound_iff h]
  simp

/-- One key is put twice into a cache for one key. -/
theorem sound_throughout_iff_sameKey :
    ∃ cache, run step (new Nat Nat 1) [.put 0 5, .get 0, .put 0 7] = some cache ∧ cache.Sound := by
  have h : (0 : Int32) < 1 := by decide
  have hroom : StepsMeet HasRoom step (new Nat Nat 1) [.put 0 5, .get 0, .put 0 7] := by
    refine ⟨Or.inr ?_, fun t ht => ?_⟩
    · show ((∅ : Std.ExtHashMap Nat Nat).size : Int) < 1
      rw [Std.ExtHashMap.size_empty]
      exact Int.zero_lt_one
    · rw [new, step_eq h, Option.some.injEq] at ht
      subst ht
      refine ⟨trivial, fun t ht => ?_⟩
      rw [step_eq h, Option.some.injEq] at ht
      subst ht
      exact ⟨Or.inl Std.ExtHashMap.mem_insert_self, fun _ _ => trivial⟩
  exact (sound_throughout_iff 1 h _).mpr hroom _ List.prefix_rfl

/-- Two keys are put into a cache for one key. -/
theorem not_sound_twoKeys :
    ¬ ∀ (capacity : Int32) (calls : List (CacheCall Nat Nat)), 0 < capacity →
      ∀ before, before <+: calls →
        ∃ cache, run step (new Nat Nat capacity) before = some cache ∧ cache.Sound := by
  intro hall
  have h : (0 : Int32) < 1 := by decide
  obtain ⟨cache, hr, hs⟩ := hall 1 [.put 0 5, .put 1 5] h _ List.prefix_rfl
  rw [new, run_eq h, Option.some.injEq] at hr
  subst hr
  have hsize : (((∅ : Std.ExtHashMap Nat Nat).insert 0 5).insert 1 5).size = 2 := by
    simp [Std.ExtHashMap.size_insert]
  have hb : ((((∅ : Std.ExtHashMap Nat Nat).insert 0 5).insert 1 5).size : Int) ≤ 1 := hs.bounded
  omega

end Cache

end SimpleServ
