import BobbyOS.Machine.TrackedCache

/-!
# Runs of cache operations

Any operations on a cache, beside a log of the keys that they touch.

* `Linked.exec`: the tracked cache does what the list of pairs does.
* `Recent.apply`: the list stays within its capacity, and in the order of the log.
* `cache_runs`: both, after any operations, and what the next one does to the values:
  an insertion into a full cache takes out the key that was not touched for the
  longest time, and no other key loses its value.
-/

namespace Hardware

open Recency

variable {Key T : Type} {CAPACITY : Nat}

/-- The operations; `f` is what the caller writes behind the reference or the
iterator that it gets. -/
inductive CacheOp (Key T : Type)
  | index (k : Key) (f : T → T)
  | emplace (k : Key) (v : T)
  | atTouch (k : Key) (f : T → T)
  | atConst (k : Key)
  | find (k : Key) (f : T → T)
  | contains (k : Key)
  | pop
  | clear

/-- What the caller sees. -/
inductive CacheResult (T : Type)
  | done
  | value (v : T)
  | inserted (b : Bool)
  | found (b : Bool)
  | threw (what : String)
deriving DecidableEq

namespace CacheOp

variable [DecidableEq Key] [Inhabited T]

/-- The operation on the cache and its tracker; an exception leaves the cache as it
was. -/
def exec (op : CacheOp Key T) (c : TrackedCache Key T CAPACITY) :
    Except CacheError (CacheResult T × TrackedCache Key T CAPACITY) :=
  match op with
  | .index k f => do
      let (node, c) ← c.index k
      let v ← c.deref node
      let c ← c.assign node f
      return (.value v, c)
  | .emplace k v => do
      let ((_, b), c) ← c.emplace k v
      return (.inserted b, c)
  | .atTouch k f =>
      match c.atTouch k with
      | .error (.outOfRange what) => .ok (.threw what, c)
      | .error e => .error e
      | .ok (node, c) => do
          let v ← c.deref node
          let c ← c.assign node f
          return (.value v, c)
  | .atConst k =>
      match c.atConst k with
      | .error (.outOfRange what) => .ok (.threw what, c)
      | .error e => .error e
      | .ok v => .ok (.value v, c)
  | .find k f =>
      match c.find k with
      | none => .ok (.found false, c)
      | some node => do
          let c ← c.assign node f
          return (.found true, c)
  | .contains k => .ok (.found (c.contains k), c)
  | .pop => do
      let c ← c.pop
      return (.done, c)
  | .clear => .ok (.done, c.clear)

/-! ### On the list of pairs -/

/-- The pairs after the operation. -/
def apply (op : CacheOp Key T) (p : LRUCache Key T CAPACITY) : LRUCache Key T CAPACITY :=
  match op with
  | .index k f => (p.index k).2.write k f
  | .emplace k v =>
      match p.find k with
      | some _ => p.front k v
      | none => p.insertFront k v
  | .atTouch k f =>
      match p.find k with
      | some v => p.front k (f v)
      | none => p
  | .find k f => p.write k f
  | .atConst _ | .contains _ => p
  | .pop => p.pop
  | .clear => {}

/-- What the operation returns. -/
def result (op : CacheOp Key T) (p : LRUCache Key T CAPACITY) : CacheResult T :=
  match op with
  | .index k _ => .value ((p.find k).getD default)
  | .emplace k _ => .inserted (p.find k).isNone
  | .atTouch k _ | .atConst k =>
      match p.find k with
      | some v => .value v
      | none => .threw "LRUCache::at: key not found"
  | .find k _ | .contains k => .found (p.find k).isSome
  | .pop | .clear => .done

/-- The key that the operation touches. -/
def touched (op : CacheOp Key T) (p : LRUCache Key T CAPACITY) : List Key :=
  match op with
  | .index k _ | .emplace k _ => [k]
  | .atTouch k _ => if (p.find k).isSome then [k] else []
  | _ => []

end CacheOp

namespace TrackedCache

variable [DecidableEq Key] [Inhabited T] {c : TrackedCache Key T CAPACITY} {k : Key} {v : T}

omit [Inhabited T] in
/-- The tracker knows exactly the keys that are held. -/
theorem Linked.find_isSome (h : c.Linked) (k : Key) :
    (c.tracker.lookup k).isSome = (c.plain.find k).isSome := by
  rcases h.lookup_cases k with ⟨node, v, hlookup, -, hfind⟩ | ⟨hlookup, -, hfind⟩
  · rw [hlookup, hfind]
    rfl
  · rw [hlookup, hfind]
    rfl

/-- **The tracked cache** does what the list of pairs does. -/
theorem Linked.exec (h : c.Linked) (hcap : 0 < CAPACITY) (op : CacheOp Key T) :
    ∃ c', op.exec c = .ok (op.result c.plain, c') ∧ c'.Linked ∧ c'.plain = op.apply c.plain := by
  cases op with
  | index k f =>
      obtain ⟨node, c₁, hindex, hlinked₁, hplain₁, hmem⟩ := h.index hcap k
      obtain ⟨c', hassign, hlinked, hplain, -⟩ := hlinked₁.assign hmem f
      refine ⟨c', ?_, hlinked, by rw [hplain, hplain₁]; rfl⟩
      have hvalue : (c.plain.index k).1 = (c.plain.find k).getD default := by
        cases hfind : c.plain.find k with
        | some v => rw [LRUCache.index_of_find hfind]; rfl
        | none => rw [LRUCache.index_of_not_find hfind]; rfl
      rw [CacheOp.exec, hindex, Except.ok_bind]
      dsimp only
      rw [hlinked₁.deref hmem, Except.ok_bind, hassign, hvalue]
      rfl
  | emplace k v =>
      obtain ⟨node, c', hemplace, hlinked, hplain⟩ := h.emplace hcap k v
      refine ⟨c', ?_, hlinked, hplain⟩
      rw [CacheOp.exec, hemplace]
      rfl
  | atTouch k f =>
      have hat := h.atTouch k
      unfold CacheOp.exec CacheOp.result CacheOp.apply
      dsimp only
      cases hfind : c.plain.find k with
      | some v =>
          rw [hfind] at hat
          obtain ⟨node, c₁, htouch, hlinked₁, hplain₁, hmem⟩ := hat
          obtain ⟨c', hassign, hlinked, hplain, -⟩ := hlinked₁.assign hmem f
          refine ⟨c', ?_, hlinked, by rw [hplain, hplain₁, LRUCache.write_front]⟩
          rw [htouch]
          dsimp only
          rw [hlinked₁.deref hmem, Except.ok_bind, hassign]
          rfl
      | none =>
          rw [hfind] at hat
          dsimp only at hat
          rw [hat]
          exact ⟨c, rfl, h, rfl⟩
  | atConst k =>
      unfold CacheOp.exec CacheOp.result CacheOp.apply
      dsimp only
      rw [h.atConst k]
      cases c.plain.find k with
      | some v => exact ⟨c, rfl, h, rfl⟩
      | none => exact ⟨c, rfl, h, rfl⟩
  | find k f =>
      unfold CacheOp.exec CacheOp.result CacheOp.apply TrackedCache.find
      dsimp only
      rcases h.lookup_cases k with ⟨node, v, hlookup, hmem, hfind⟩ | ⟨hlookup, hnot, hfind⟩
      · obtain ⟨c', hassign, hlinked, hplain, -⟩ := h.assign hmem f
        rw [hlookup, hfind]
        dsimp only
        rw [hassign]
        exact ⟨c', rfl, hlinked, hplain⟩
      · rw [hlookup, hfind]
        exact ⟨c, rfl, h, (LRUCache.write_of_notMem (by rwa [keys_plain])).symm⟩
  | contains k => exact ⟨c, by rw [CacheOp.exec, contains, h.find_isSome]; rfl, h, rfl⟩
  | pop =>
      obtain ⟨c', hpop, hlinked, hplain⟩ := h.pop
      refine ⟨c', ?_, hlinked, hplain⟩
      rw [CacheOp.exec, hpop]
      rfl
  | clear => exact ⟨c.clear, rfl, Linked.clear, rfl⟩

end TrackedCache

namespace LRUCache

variable {p : LRUCache Key T CAPACITY} {log : List Key} {k : Key} {v : T}

/-- The keys, from the front on. -/
def keys (p : LRUCache Key T CAPACITY) : List Key := p.storage.map Prod.fst

/-! ### Values -/

section Values

variable [DecidableEq Key]

/-- Nothing is found for a key that is not held. -/
theorem find_eq_none : p.find k = none ↔ k ∉ p.keys := by
  rw [find, Option.map_eq_none_iff, List.find?_eq_none, keys, List.mem_map]
  constructor
  · rintro h ⟨kv, hkv, rfl⟩
    exact h kv hkv (decide_eq_true rfl)
  · intro h kv hkv heq
    exact h ⟨kv, hkv, of_decide_eq_true heq⟩

/-- The front entry is found first. -/
theorem find_cons {rest : List (Key × T)} :
    (⟨(k, v) :: rest⟩ : LRUCache Key T CAPACITY).find =
      Function.update (⟨rest⟩ : LRUCache Key T CAPACITY).find k (some v) := by
  funext k'
  unfold find
  by_cases hk : k' = k
  · rw [hk, Function.update_self, List.find?_cons_of_pos (by simp)]
    rfl
  · rw [Function.update_of_ne hk, List.find?_cons_of_neg (by simpa using Ne.symm hk)]

/-- An entry that goes to the front is found with its value. -/
theorem find_front : (p.front k v).find = Function.update p.find k (some v) := by
  rw [front, find_cons]
  funext k'
  by_cases hk : k' = k
  · rw [hk, Function.update_self, Function.update_self]
  · rw [Function.update_of_ne hk, Function.update_of_ne hk, find, find, List.find?_filter]
    congr 2
    funext kv
    by_cases hkv : kv.1 = k'
    · simp [hkv, hk]
    · simp [hkv]

/-- An entry that is written over is found with its new value. -/
theorem find_write {f : T → T} :
    (p.write k f).find = Function.update p.find k ((p.find k).map f) := by
  have hkey : ∀ k' : Key, ((fun kv : Key × T => decide (kv.1 = k')) ∘
      fun kv => if kv.1 = k then (kv.1, f kv.2) else kv) = fun kv => decide (kv.1 = k') := by
    intro k'
    funext kv
    by_cases hk : kv.1 = k <;> simp [hk]
  funext k'
  rw [find, write, List.find?_map, hkey, Option.map_map]
  by_cases hk : k' = k
  · subst hk
    rw [Function.update_self, find, Option.map_map]
    refine Option.map_congr fun kv hkv => ?_
    have hkv : kv.1 = k' := by simpa using List.find?_some hkv
    simp [hkv]
  · rw [Function.update_of_ne hk, find]
    refine Option.map_congr fun kv hkv => ?_
    have hkv : kv.1 = k' := by simpa using List.find?_some hkv
    simp [hkv, hk]

/-- The last pair is taken out. -/
theorem find_dropLast {rest : List (Key × T)} {e : Key} {w : T}
    (hnodup : ((rest ++ [(e, w)]).map Prod.fst).Nodup) :
    (⟨rest⟩ : LRUCache Key T CAPACITY).find =
      Function.update (⟨rest ++ [(e, w)]⟩ : LRUCache Key T CAPACITY).find e none := by
  rw [List.map_append, List.nodup_append] at hnodup
  funext k'
  by_cases hk : k' = e
  · subst hk
    rw [Function.update_self, find_eq_none]
    exact fun hmem => hnodup.2.2 _ hmem _ List.mem_cons_self rfl
  · rw [Function.update_of_ne hk, find, find, List.find?_append,
      List.find?_singleton, if_neg (by simpa using Ne.symm hk), Option.or_none]

end Values

/-! ### The order -/

variable [DecidableEq Key]

/-- The cache is not too large, and in the order of the touches. -/
structure Recent (p : LRUCache Key T CAPACITY) (log : List Key) : Prop where
  bounded : p.storage.length ≤ CAPACITY
  order : Ordered log p.keys

/-- The last pair is that of the least recently touched key; what is left without it. -/
theorem Recent.last (h : p.Recent log) (hne : p.storage ≠ []) :
    ∃ e, Least log p.keys e ∧ p.pop.find = Function.update p.find e none := by
  obtain ⟨storage⟩ := p
  rcases List.eq_nil_or_concat storage with rfl | ⟨rest, ⟨e, w⟩, rfl⟩
  · exact absurd rfl hne
  rw [List.concat_eq_append] at *
  have hkeys : (⟨rest ++ [(e, w)]⟩ : LRUCache Key T CAPACITY).keys = rest.map Prod.fst ++ [e] :=
    List.map_append
  have horder := h.order
  rw [hkeys] at horder
  refine ⟨e, hkeys ▸ horder.last, ?_⟩
  rw [pop, List.dropLast_concat]
  exact find_dropLast h.order.nodup

/-- An eviction keeps the order. -/
theorem Recent.pop (h : p.Recent log) : p.pop.Recent log := by
  refine ⟨?_, h.order.sublist ((List.dropLast_sublist _).map _)⟩
  have := h.bounded
  show p.storage.dropLast.length ≤ _
  rw [List.length_dropLast]
  omega

/-- A value that is written over keeps the order. -/
theorem Recent.write (h : p.Recent log) (f : T → T) : (p.write k f).Recent log := by
  have hkeys : (p.write k f).keys = p.keys := by
    unfold keys LRUCache.write
    rw [List.map_map]
    refine List.map_congr_left fun kv _ => ?_
    show (if kv.1 = k then _ else kv).1 = kv.1
    split <;> rfl
  refine ⟨?_, hkeys ▸ h.order⟩
  show (List.map _ _).length ≤ _
  rw [List.length_map]
  exact h.bounded

/-- An entry that is used goes to the front of the order. -/
theorem Recent.front (h : p.Recent log) (hk : p.find k = some v) (w : T) :
    (p.front k w).Recent (k :: log) := by
  have hkeys : (p.front k w).keys = k :: p.keys.filter (· ≠ k) := by
    unfold keys LRUCache.front
    rw [List.map_cons, List.filter_map]
    rfl
  refine ⟨?_, hkeys ▸ h.order.touch k⟩
  have hperm := Associative.cons_filter_perm h.order.nodup (mem_of_find hk)
  show (List.filter _ _).length + 1 ≤ _
  rw [← List.length_cons (a := (k, v)), hperm.length_eq]
  exact h.bounded

/-- So does a new one. -/
theorem Recent.insertFront (h : p.Recent log) (hcap : 0 < CAPACITY) (hk : p.find k = none)
    (v : T) : (p.insertFront k v).Recent (k :: log) := by
  have hnot := find_eq_none.mp hk
  have hbounded := h.bounded
  unfold LRUCache.insertFront
  by_cases hfull : p.storage.length = CAPACITY
  · rw [if_pos hfull]
    refine ⟨?_, h.pop.order.enter fun hmem => hnot ?_⟩
    · rw [List.length_cons, List.length_dropLast]
      omega
    · exact ((List.dropLast_sublist _).map _).subset hmem
  · rw [if_neg hfull]
    refine ⟨?_, h.order.enter hnot⟩
    rw [List.length_cons]
    omega

/-- **Every operation** keeps the order of the touches. -/
theorem Recent.apply [Inhabited T] (h : p.Recent log) (hcap : 0 < CAPACITY)
    (op : CacheOp Key T) : (op.apply p).Recent (op.touched p ++ log) := by
  cases op with
  | index k f =>
      refine Recent.write ?_ f
      cases hfind : p.find k with
      | some v =>
          rw [index_of_find hfind]
          exact h.front hfind v
      | none =>
          rw [index_of_not_find hfind]
          exact h.insertFront hcap hfind default
  | emplace k v =>
      unfold CacheOp.apply
      dsimp only
      cases hfind : p.find k with
      | some w => exact h.front hfind v
      | none => exact h.insertFront hcap hfind v
  | atTouch k f =>
      unfold CacheOp.apply CacheOp.touched
      dsimp only
      cases hfind : p.find k with
      | some v => exact h.front hfind (f v)
      | none => exact h
  | atConst k | contains k => exact h
  | find k f => exact h.write f
  | pop => exact h.pop
  | clear => exact ⟨Nat.zero_le _, ordered_nil⟩

/-! ### What an operation does to the values -/

/-- A new key has got its value.  A full cache has lost the least recently touched key;
the values of all others are as they were. -/
def Inserted (p p' : LRUCache Key T CAPACITY) (log : List Key) (k : Key) (v : T) : Prop :=
  if p.storage.length = CAPACITY then
    ∃ e, Least log p.keys e ∧
      p'.find = Function.update (Function.update p.find e none) k (some v)
  else p'.find = Function.update p.find k (some v)

/-- The values after the operation. -/
def Effect [Inhabited T] (op : CacheOp Key T) (p p' : LRUCache Key T CAPACITY)
    (log : List Key) : Prop :=
  match op with
  | .index k f =>
      match p.find k with
      | some v => p'.find = Function.update p.find k (some (f v))
      | none => Inserted p p' log k (f default)
  | .emplace k v =>
      match p.find k with
      | some _ => p'.find = Function.update p.find k (some v)
      | none => Inserted p p' log k v
  | .atTouch k f | .find k f => p'.find = Function.update p.find k ((p.find k).map f)
  | .atConst _ | .contains _ => p' = p
  | .pop =>
      if p.storage = [] then p' = p
      else ∃ e, Least log p.keys e ∧ p'.find = Function.update p.find e none
  | .clear => p'.find = fun _ => none

/-- A new entry evicts the one that was used longest ago, and only if it has to. -/
theorem Recent.inserted (h : p.Recent log) (hcap : 0 < CAPACITY) (v : T) :
    Inserted p (p.insertFront k v) log k v := by
  unfold Inserted LRUCache.insertFront
  by_cases hfull : p.storage.length = CAPACITY
  · rw [if_pos hfull, if_pos hfull]
    obtain ⟨e, hleast, hfind⟩ := h.last (List.ne_nil_of_length_pos (by rw [hfull]; exact hcap))
    refine ⟨e, hleast, ?_⟩
    rw [find_cons, ← hfind]
    rfl
  · rw [if_neg hfull, if_neg hfull]
    exact find_cons

/-- **Effect.**  Each operation does what it is for. -/
theorem Recent.effect [Inhabited T] (h : p.Recent log) (hcap : 0 < CAPACITY)
    (op : CacheOp Key T) : Effect op p (op.apply p) log := by
  unfold Effect CacheOp.apply
  cases op with
  | index k f =>
      dsimp only
      cases hfind : p.find k with
      | some v =>
          rw [index_of_find hfind, write_front]
          exact find_front
      | none =>
          rw [index_of_not_find hfind, write_insertFront (find_eq_none.mp hfind)]
          exact h.inserted hcap _
  | emplace k v =>
      dsimp only
      cases hfind : p.find k with
      | some w => exact find_front
      | none => exact h.inserted hcap v
  | atTouch k f =>
      dsimp only
      cases hfind : p.find k with
      | some v => exact find_front
      | none => exact (Function.update_eq_self_iff.mpr hfind.symm).symm
  | find k f => exact find_write
  | atConst k | contains k => rfl
  | pop =>
      dsimp only
      by_cases hempty : p.storage = []
      · rw [if_pos hempty, LRUCache.pop, hempty]
        exact congrArg LRUCache.mk hempty.symm
      · rw [if_neg hempty]
        exact h.last hempty
  | clear => rfl

end LRUCache

/-! ### Runs -/

/-- A cache, and the keys that were touched, the newest first. -/
structure LoggedCache (Key T : Type) [DecidableEq Key] (CAPACITY : Nat) where
  cache : TrackedCache Key T CAPACITY := {}
  log : List Key := []

namespace LoggedCache

variable [DecidableEq Key] [Inhabited T]

/-- An operation on the cache, logged. -/
def exec (s : LoggedCache Key T CAPACITY) (op : CacheOp Key T) :
    Except CacheError (CacheResult T × LoggedCache Key T CAPACITY) := do
  let (r, cache) ← op.exec s.cache
  return (r, { cache, log := op.touched s.cache.plain ++ s.log })

/-- Operations one after the other. -/
def execAll (ops : List (CacheOp Key T)) (s : LoggedCache Key T CAPACITY) :
    Except CacheError (LoggedCache Key T CAPACITY) :=
  ops.foldlM (fun s op => do
    let (_, s) ← s.exec op
    return s) s

/-- What every operation keeps. -/
structure Good (s : LoggedCache Key T CAPACITY) : Prop where
  linked : s.cache.Linked
  recent : s.cache.plain.Recent s.log

variable {s : LoggedCache Key T CAPACITY}

omit [Inhabited T] in
/-- A new cache is in good order. -/
theorem good_initial : ({} : LoggedCache Key T CAPACITY).Good :=
  ⟨TrackedCache.linked_empty, Nat.zero_le _, ordered_nil⟩

/-- **One operation.** -/
theorem Good.exec (h : s.Good) (hcap : 0 < CAPACITY) (op : CacheOp Key T) :
    ∃ s', s.exec op = .ok (op.result s.cache.plain, s') ∧ s'.Good ∧
      LRUCache.Effect op s.cache.plain s'.cache.plain s.log := by
  obtain ⟨c', hexec, hlinked, hplain⟩ := h.linked.exec hcap op
  refine ⟨⟨c', op.touched s.cache.plain ++ s.log⟩, ?_, ⟨hlinked, ?_⟩, ?_⟩
  · rw [LoggedCache.exec, hexec]
    rfl
  · dsimp only
    rw [hplain]
    exact h.recent.apply hcap op
  · dsimp only
    rw [hplain]
    exact h.recent.effect hcap op

/-- **Runs.**  No operation fails, and the cache stays in good order. -/
theorem Good.execAll (h : s.Good) (hcap : 0 < CAPACITY) (ops : List (CacheOp Key T)) :
    ∃ s', execAll ops s = .ok s' ∧ s'.Good := by
  refine Except.foldlM_tracks (R := fun s (_ : Unit) => Good s) (r := ()) (k := fun r _ => r)
    (fun op h => ?_) h ops
  obtain ⟨s', hexec, h', -⟩ := h.exec hcap op
  exact ⟨s', by rw [hexec]; rfl, h'⟩

end LoggedCache

variable [DecidableEq Key] [Inhabited T]

/-- **Runs of cache operations.**  After any operations the tracker leads every key to
its node, the cache is not too large and in the order of the touches; and the next
operation returns what it should, keeps all that, and changes the values as it should. -/
theorem cache_runs (hcap : 0 < CAPACITY) (ops : List (CacheOp Key T)) :
    ∃ s : LoggedCache Key T CAPACITY, LoggedCache.execAll ops {} = .ok s ∧ s.Good ∧
      ∀ op, ∃ s', s.exec op = .ok (op.result s.cache.plain, s') ∧ s'.Good ∧
        LRUCache.Effect op s.cache.plain s'.cache.plain s.log := by
  obtain ⟨s, hexec, h⟩ := LoggedCache.good_initial.execAll hcap ops
  exact ⟨s, hexec, h, fun op => h.exec hcap op⟩

/-- A cache for two pairs, filled, and the insertion of a third one. -/
theorem cache_runs_full : ∃ s : LoggedCache Nat Nat 2,
    LoggedCache.execAll [.emplace 1 10, .emplace 2 20, .index 1 (· + 1)] {} = .ok s ∧ s.Good ∧
      ∃ s', s.exec (.emplace 3 30) =
          .ok (CacheOp.result (.emplace 3 30) s.cache.plain, s') ∧ s'.Good ∧
        LRUCache.Effect (.emplace 3 30) s.cache.plain s'.cache.plain s.log := by
  obtain ⟨s, hexec, h, hnext⟩ := cache_runs (show 0 < 2 by decide)
    [.emplace 1 10, .emplace 2 20, .index 1 (· + 1)]
  exact ⟨s, hexec, h, hnext _⟩

/-- The key that was not touched again is the one that goes. -/
example : (LoggedCache.execAll [.emplace 1 10, .emplace 2 20, .index 1 (· + 1), .emplace 3 30]
    ({} : LoggedCache Nat Nat 2)).map (fun s => s.cache.plain.storage) = .ok [(3, 30), (1, 11)] := by
  rfl

end Hardware
