import Tempesta.Cache.Process

/-!
The cache of a machine with several nodes, each with a database of its own, and the `PURGE`
method. A node is chosen by the key in the one mode, in the other mode every node stores
a copy of a response and serves the requests that come to its CPUs.
-/

namespace Tempesta.Cache

open List Http TfwCacheEntry

/-- `TFW_CACHE_SHARD`, `TFW_CACHE_REPLICA` -/
inductive CacheMode where
  | shard
  | replica
  deriving DecidableEq, Repr

/-- `ce->lifetime = 0` -/
def TfwCacheEntry.invalidate (ce : TfwCacheEntry) : TfwCacheEntry :=
  { ce with times := { ce.times with lifetime := 0 } }

def CacheDb.setChain (db : CacheDb) (key : UInt64) (chain : List TfwCacheEntry) : CacheDb :=
  fun k => if k = key then chain else db k

/-- `tfw_cache_purge_invalidate`, or `-ENOENT` -/
def purgeInvalidate (hashStr : List UInt8 → UInt64) (db : CacheDb) (req : CacheReq) :
    Option CacheDb :=
  let key := reqKeyCalc hashStr req
  match dbceGet hashStr db req with
  | none => none
  | some (pos, ce) =>
    let rest := ((db key).drop (pos + 1)).map fun e =>
      if entryKeyEq req e then e.invalidate else e
    some (db.setChain key ((db key).take pos ++ ce.invalidate :: rest))

/-- The configuration that `tfw_cache_purge_method` reads, and whether the client is in the
list of those that may use it. -/
structure PurgeConf where
  cachePurge : Bool
  cachePurgeAcl : Bool
  modeInvalidate : Bool
  aclMatch : Bool

/-- `tfw_cache_purge_method`: the status of the answer, and the database -/
def purgeMethod (hashStr : List UInt8 → UInt64) (conf : PurgeConf) (db : CacheDb)
    (req : CacheReq) : Nat × CacheDb :=
  if !(conf.cachePurge && conf.cachePurgeAcl) then (403, db)
  else if !conf.aclMatch then (403, db)
  else if !conf.modeInvalidate then (403, db)
  else
    match purgeInvalidate hashStr db req with
    | none => (404, db)
    | some db' => (200, db')

/-- The databases of `n + 1` nodes. -/
structure CacheSys (n : Nat) where
  mode : CacheMode
  db : Fin (n + 1) → CacheDb

variable {n : Nat} {db db' : CacheDb} {chain c : List TfwCacheEntry} {k : UInt64}
  {creator req a b purge : CacheReq} {hashStr : List UInt8 → UInt64}

/-- `tfw_cache_key_node` -/
def keyNode (key : UInt64) : Fin (n + 1) := Fin.ofNat (n + 1) key.toNat

/-- `req->node`, as `tfw_cache_process` sets it on a CPU of the node `cpu`. -/
def reqNode (hashStr : List UInt8 → UInt64) (mode : CacheMode) (cpu : Fin (n + 1))
    (req : CacheReq) : Fin (n + 1) :=
  match mode with
  | .shard => keyNode (reqKeyCalc hashStr req)
  | .replica => cpu

/-- What happens to the cache: a response is stored, with the entry that `__cache_add_node`
makes at a node, if it can; or a `PURGE` comes to a CPU. -/
inductive CacheOp (n : Nat) where
  | add (req : CacheReq) (entry : Fin (n + 1) → Option TfwCacheEntry)
  | purge (cpu : Fin (n + 1)) (conf : PurgeConf) (req : CacheReq)

/-- `tfw_htrie_insert` of a new entry -/
def CacheDb.insert (db : CacheDb) (key : UInt64) (ce : Option TfwCacheEntry) : CacheDb :=
  db.setChain key (db key ++ ce.toList)

/-- `tfw_cache_add` of a response that may be stored, and `tfw_cache_purge_method` -/
def CacheSys.step (hashStr : List UInt8 → UInt64) (s : CacheSys n) : CacheOp n → CacheSys n
  | .add req entry =>
    let key := reqKeyCalc hashStr req
    match s.mode with
    | .shard =>
      { s with db := fun m =>
          if m = keyNode key then (s.db m).insert key (entry m) else s.db m }
    | .replica => { s with db := fun m => (s.db m).insert key (entry m) }
  | .purge cpu conf req =>
    let node := reqNode hashStr s.mode cpu req
    { s with db := fun m =>
        if m = node then (purgeMethod hashStr conf (s.db m) req).2 else s.db m }

/-- The entries are written for the request, and a `PURGE` has that method. -/
def CacheOp.Valid : CacheOp n → Prop
  | .add req entry => ∀ m ce, entry m = some ce → KeyStored req ce
  | .purge _ _ req => req.method = .purge

/-- The states that `tfw_cache_add` and `PURGE` build -/
inductive Reach (hashStr : List UInt8 → UInt64) (mode : CacheMode) : CacheSys n → Prop
  | empty : Reach hashStr mode ⟨mode, fun _ _ => []⟩
  | step {s : CacheSys n} {op : CacheOp n} : Reach hashStr mode s → op.Valid →
      Reach hashStr mode (s.step hashStr op)

@[simp]
lemma CacheDb.setChain_same (db : CacheDb) (key : UInt64) (chain : List TfwCacheEntry) :
    db.setChain key chain key = chain := if_pos rfl

lemma CacheDb.setChain_other {key : UInt64} (h : k ≠ key) :
    db.setChain key chain k = db k := if_neg h

variable {ce : TfwCacheEntry}

lemma KeyStored.invalidate (h : KeyStored creator ce) : KeyStored creator ce.invalidate :=
  ⟨h.method, h.len, h.start, h.chunks⟩

/-- What a `PURGE` does to an entry of the chain -/
def TfwCacheEntry.purged (req : CacheReq) (ce : TfwCacheEntry) : TfwCacheEntry :=
  if entryKeyEq req ce then ce.invalidate else ce

lemma purgeInvalidate_chain (h : purgeInvalidate hashStr db req = some db') :
    db' = db.setChain (reqKeyCalc hashStr req)
      ((db (reqKeyCalc hashStr req)).map (TfwCacheEntry.purged req)) := by
  rw [purgeInvalidate] at h
  cases hget : dbceGet hashStr db req with
  | none =>
    rw [hget] at h
    cases h
  | some found =>
    obtain ⟨pos, ce⟩ := found
    rw [hget] at h
    obtain rfl := Option.some.inj h
    obtain ⟨hpos, hmatch, hbefore⟩ := dbceGet_eq_some hget
    congr 1
    generalize db (reqKeyCalc hashStr req) = chain at hpos hbefore
    obtain ⟨hlt, hce⟩ := List.getElem?_eq_some_iff.mp hpos
    have hcut : chain = chain.take pos ++ ce :: chain.drop (pos + 1) := by
      rw [← hce, cons_getElem_drop_succ, take_append_drop]
    have hfront : (chain.take pos).map (purged req) = chain.take pos := by
      refine (map_congr_left ?_).trans (map_id _)
      intro e he
      obtain ⟨i, hi, rfl⟩ := getElem_of_mem he
      rw [length_take] at hi
      have hfalse := hbefore i (by omega) _ (getElem?_eq_getElem (by omega))
      rw [getElem_take, purged, hfalse, if_neg Bool.false_ne_true]
      rfl
    conv_rhs => rw [hcut]
    rw [map_append, hfront, map_cons, purged, hmatch, if_pos rfl]
    rfl

/-- A chain after some time: its entries are where they were, some of them made stale, and
new ones may stand behind them. -/
def Ages (old new : List TfwCacheEntry) : Prop :=
  ∀ (i : Nat) (e : TfwCacheEntry), old[i]? = some e → ∃ e', new[i]? = some e' ∧
    (e' = e ∨ e' = e.invalidate)

lemma Ages.refl (chain : List TfwCacheEntry) : Ages chain chain :=
  fun _ e h => ⟨e, h, .inl rfl⟩

lemma Ages.trans {a b : List TfwCacheEntry} (hab : Ages a b) (hbc : Ages b c) : Ages a c := by
  intro i e he
  obtain ⟨e', he', hcase'⟩ := hab i e he
  obtain ⟨e'', he'', hcase''⟩ := hbc i e' he'
  refine ⟨e'', he'', ?_⟩
  obtain rfl | rfl := hcase'
  · exact hcase''
  · exact .inr (hcase''.elim id id)

lemma ages_append (chain more : List TfwCacheEntry) : Ages chain (chain ++ more) := by
  intro i e he
  obtain ⟨hlt, -⟩ := List.getElem?_eq_some_iff.mp he
  exact ⟨e, by rwa [getElem?_append_left hlt], .inl rfl⟩

lemma ages_purged (req : CacheReq) (chain : List TfwCacheEntry) :
    Ages chain (chain.map (TfwCacheEntry.purged req)) := by
  intro i e he
  refine ⟨e.purged req, by rw [getElem?_map, he]; rfl, ?_⟩
  rw [purged]
  split
  · exact .inr rfl
  · exact .inl rfl

lemma ages_insert (db : CacheDb) (key k : UInt64) (ce : Option TfwCacheEntry) :
    Ages (db k) (db.insert key ce k) := by
  by_cases h : k = key
  · subst h
    rw [CacheDb.insert, CacheDb.setChain_same]
    exact ages_append _ _
  · rw [CacheDb.insert, CacheDb.setChain_other h]
    exact Ages.refl _

lemma purgeMethod_cases (hashStr : List UInt8 → UInt64) (conf : PurgeConf) (db : CacheDb)
    (req : CacheReq) :
    ((purgeMethod hashStr conf db req).1 ≠ 200 ∧ (purgeMethod hashStr conf db req).2 = db) ∨
      (purgeMethod hashStr conf db req).2 = db.setChain (reqKeyCalc hashStr req)
        ((db (reqKeyCalc hashStr req)).map (TfwCacheEntry.purged req)) := by
  rw [purgeMethod]
  split
  · exact .inl ⟨nofun, rfl⟩
  split
  · exact .inl ⟨nofun, rfl⟩
  split
  · exact .inl ⟨nofun, rfl⟩
  cases hp : purgeInvalidate hashStr db req with
  | none => exact .inl ⟨nofun, rfl⟩
  | some db' => exact .inr (purgeInvalidate_chain hp)

lemma ages_purgeMethod (hashStr : List UInt8 → UInt64) (conf : PurgeConf) (db : CacheDb)
    (req : CacheReq) (k : UInt64) : Ages (db k) ((purgeMethod hashStr conf db req).2 k) := by
  obtain ⟨-, hsame⟩ | hpurged := purgeMethod_cases hashStr conf db req
  · rw [hsame]
    exact Ages.refl _
  · rw [hpurged]
    by_cases h : k = reqKeyCalc hashStr req
    · subst h
      rw [CacheDb.setChain_same]
      exact ages_purged req _
    · rw [CacheDb.setChain_other h]
      exact Ages.refl _

section runs
lemma CacheSys.step_mode (s : CacheSys n) (op : CacheOp n) :
    (s.step hashStr op).mode = s.mode := by
  cases op with
  | add req entry =>
    rw [CacheSys.step]
    split <;> rfl
  | purge cpu conf req => rfl

lemma CacheSys.step_ages (s : CacheSys n) (op : CacheOp n) (m : Fin (n + 1)) (k : UInt64) :
    Ages (s.db m k) ((s.step hashStr op).db m k) := by
  cases op with
  | add req entry =>
    rw [CacheSys.step]
    split
    · dsimp only
      split
      · exact ages_insert _ _ _ _
      · exact Ages.refl _
    · exact ages_insert _ _ _ _
  | purge cpu conf req =>
    rw [CacheSys.step]
    dsimp only
    split
    · exact ages_purgeMethod _ _ _ _ _
    · exact Ages.refl _

def CacheSys.run (hashStr : List UInt8 → UInt64) (s : CacheSys n) (ops : List (CacheOp n)) :
    CacheSys n :=
  ops.foldl (CacheSys.step hashStr) s

lemma CacheSys.run_mode (s : CacheSys n) (ops : List (CacheOp n)) :
    (s.run hashStr ops).mode = s.mode := by
  induction ops generalizing s with
  | nil => rfl
  | cons op ops ih => exact (ih (s.step hashStr op)).trans (s.step_mode op)

lemma CacheSys.run_ages (s : CacheSys n) (ops : List (CacheOp n)) (m : Fin (n + 1)) (k : UInt64) :
    Ages (s.db m k) ((s.run hashStr ops).db m k) := by
  induction ops generalizing s with
  | nil => exact Ages.refl _
  | cons op ops ih => exact (s.step_ages op m k).trans (ih (s.step hashStr op))

def AllStored (s : CacheSys n) : Prop :=
  ∀ m k, ∀ ce ∈ s.db m k, ∃ creator, KeyStored creator ce

lemma stored_insert {key : UInt64} {ce : Option TfwCacheEntry}
    (hdb : ∀ e ∈ db k, ∃ creator, KeyStored creator e) (hce : ∀ e, ce = some e → KeyStored req e) :
    ∀ e ∈ db.insert key ce k, ∃ creator, KeyStored creator e := by
  intro e he
  by_cases h : k = key
  · subst h
    rw [CacheDb.insert, CacheDb.setChain_same] at he
    obtain he | he := mem_append.mp he
    · exact hdb e he
    · exact ⟨req, hce e (Option.mem_toList.mp he)⟩
  · rw [CacheDb.insert, CacheDb.setChain_other h] at he
    exact hdb e he

variable {conf : PurgeConf}

lemma stored_purgeMethod (hdb : ∀ e ∈ db k, ∃ creator, KeyStored creator e) :
    ∀ e ∈ (purgeMethod hashStr conf db req).2 k, ∃ creator, KeyStored creator e := by
  obtain ⟨-, hsame⟩ | hpurged := purgeMethod_cases hashStr conf db req
  · rwa [hsame]
  · rw [hpurged]
    by_cases h : k = reqKeyCalc hashStr req
    · subst h
      rw [CacheDb.setChain_same]
      intro e he
      obtain ⟨e', he', rfl⟩ := mem_map.mp he
      obtain ⟨creator, hcreator⟩ := hdb e' he'
      refine ⟨creator, ?_⟩
      rw [purged]
      split
      · exact hcreator.invalidate
      · exact hcreator
    · rwa [CacheDb.setChain_other h]

variable {s : CacheSys n}

lemma AllStored.step (h : AllStored s) {op : CacheOp n} (hop : op.Valid) :
    AllStored (s.step hashStr op) := by
  intro m k
  cases op with
  | add req entry =>
    rw [CacheSys.step]
    split
    · dsimp only
      split
      · exact stored_insert (h m k) (hop m)
      · exact h m k
    · exact stored_insert (h m k) (hop m)
  | purge cpu conf req =>
    rw [CacheSys.step]
    dsimp only
    split
    · exact stored_purgeMethod (h m k)
    · exact h m k

variable {mode : CacheMode}

lemma Reach.allStored (h : Reach hashStr mode s) : AllStored s := by
  induction h with
  | empty =>
    intro m k e he
    cases he
  | step _ hop ih => exact ih.step hop

lemma AllStored.run (h : AllStored s) {ops : List (CacheOp n)} (hops : ∀ op ∈ ops, op.Valid) :
    AllStored (s.run hashStr ops) := by
  induction ops generalizing s with
  | nil => exact h
  | cons op ops ih =>
    obtain ⟨hop, hops⟩ := forall_mem_cons.mp hops
    exact ih (h.step hop) hops

def SameKey (a b : CacheReq) : Prop :=
  a.uriPath.flatten = b.uriPath.flatten ∧ a.host.flatten = b.host.flatten

lemma SameKey.key (h : SameKey a b) : a.key = b.key := by
  rw [a.key_eq, b.key_eq, h.1, h.2]

lemma SameKey.reqKeyCalc (h : SameKey a b) : reqKeyCalc hashStr a = reqKeyCalc hashStr b := by
  rw [Cache.reqKeyCalc, Cache.reqKeyCalc, h.1, h.2]

/-- A `PURGE` is for the entries of its key under any method. -/
theorem entryKeyEq_of_sameKey (hstored : KeyStored creator ce) (hpurge : purge.method = .purge)
    (hkey : SameKey purge req) (h : entryKeyEq req ce = true) : entryKeyEq purge ce = true := by
  obtain ⟨-, heq⟩ := (entryKeyEq_iff hstored).mp h
  exact (entryKeyEq_iff hstored).mpr ⟨.inl hpurge, by rw [hkey.key, heq]⟩

/-- Requests for the key, on whatever CPU, at whatever time, are not served in `later` from an
entry that `before` had. -/
def NotServedFrom (hashStr : List UInt8 → UInt64) (before later : CacheSys n) (req : CacheReq) :
    Prop :=
  ∀ cpu env pos ce,
    dbceGet hashStr (later.db (reqNode hashStr later.mode cpu req)) req = some (pos, ce) →
    (processNode hashStr env (later.db (reqNode hashStr later.mode cpu req)) req).entry = some ce →
    (before.db (reqNode hashStr later.mode cpu req) (reqKeyCalc hashStr req)).length ≤ pos

/-- The cache is sharded, or the databases of the other nodes have no entry of the key that is
not yet stale. -/
def PurgeReaches (hashStr : List UInt8 → UInt64) (s : CacheSys n) (cpu : Fin (n + 1))
    (purge : CacheReq) : Prop :=
  s.mode = .shard ∨ ∀ m, m ≠ cpu → ∀ ce ∈ s.db m (reqKeyCalc hashStr purge),
    entryKeyEq purge ce = true → ce.times.lifetime ≤ 0

/-- After a `PURGE` the old entries of its key are stale at a node that requests can go to. -/
theorem stale_after_purge {cpu cpu' : Fin (n + 1)}
    (hok : (purgeMethod hashStr conf (s.db (reqNode hashStr s.mode cpu purge)) purge).1 = 200)
    (hcond : PurgeReaches hashStr s cpu purge) (hkey : SameKey purge req) :
    ∀ ce ∈ (s.step hashStr (.purge cpu conf purge)).db (reqNode hashStr s.mode cpu' req)
        (reqKeyCalc hashStr purge), entryKeyEq purge ce = true → ce.times.lifetime ≤ 0 := by
  rw [CacheSys.step]
  dsimp only
  by_cases hnode : reqNode hashStr s.mode cpu' req = reqNode hashStr s.mode cpu purge
  · rw [if_pos hnode, hnode]
    obtain ⟨hfail, -⟩ | hpurged :=
      purgeMethod_cases hashStr conf (s.db (reqNode hashStr s.mode cpu purge)) purge
    · exact absurd hok hfail
    · rw [hpurged, CacheDb.setChain_same]
      intro ce hce hmatch
      obtain ⟨e, -, rfl⟩ := mem_map.mp hce
      rw [purged] at hmatch ⊢
      split
      · exact Int.le_refl 0
      next hne =>
        rw [if_neg hne] at hmatch
        exact absurd hmatch hne
  · rw [if_neg hnode]
    cases hmode : s.mode with
    | shard =>
      rw [hmode, reqNode, reqNode, hkey.reqKeyCalc] at hnode
      exact absurd rfl hnode
    | replica =>
      rw [hmode] at hnode
      obtain hshard | hother := hcond
      · rw [hmode] at hshard
        cases hshard
      · exact hother cpu' hnode

theorem purge_effective {mode : CacheMode} {s : CacheSys n} (hreach : Reach hashStr mode s)
    {cpu : Fin (n + 1)} {conf : PurgeConf} {purge : CacheReq} (hpurge : purge.method = .purge)
    (hok : (purgeMethod hashStr conf (s.db (reqNode hashStr s.mode cpu purge)) purge).1 = 200)
    (hcond : PurgeReaches hashStr s cpu purge) {ops : List (CacheOp n)}
    (hops : ∀ op ∈ ops, op.Valid) {req : CacheReq} (hkey : SameKey purge req) :
    NotServedFrom hashStr s ((s.step hashStr (.purge cpu conf purge)).run hashStr ops) req := by
  intro cpu' env pos ce hget hserved
  have hmode : ((s.step hashStr (.purge cpu conf purge)).run hashStr ops).mode = s.mode := by
    rw [CacheSys.run_mode, CacheSys.step_mode]
  have hstored : AllStored ((s.step hashStr (.purge cpu conf purge)).run hashStr ops) :=
    (hreach.allStored.step (show CacheOp.Valid (.purge cpu conf purge) from hpurge)).run hops
  rw [hmode] at hget hserved ⊢
  by_contra hlt
  have hold := getElem?_eq_getElem (Nat.lt_of_not_le hlt)
  obtain ⟨e, he, -⟩ := s.step_ages (.purge cpu conf purge) _ _ pos _ hold
  obtain ⟨e', he', hcase⟩ := CacheSys.run_ages
    (s.step hashStr (.purge cpu conf purge)) ops _ _ pos e he
  obtain ⟨hce, hmatch, -⟩ := dbceGet_eq_some hget
  obtain rfl := Option.some.inj (he'.symm.trans hce)
  obtain ⟨creator, hcreator⟩ := hstored _ _ e' (mem_of_getElem? hce)
  have hpmatch := entryKeyEq_of_sameKey hcreator hpurge hkey hmatch
  have hdead : e'.times.lifetime ≤ 0 := by
    obtain rfl | rfl := hcase
    · rw [← hkey.reqKeyCalc] at he
      exact stale_after_purge hok hcond hkey e' (mem_of_getElem? he) hpmatch
    · exact Int.le_refl 0
  rw [processNode_entry_of_stale hget (entryIsLive_of_lifetime hdead)] at hserved
  cases hserved

end runs

/-- A `PURGE` for the page of `rootOf`. -/
def purgeRoot (authority : List UInt8) : CacheReq :=
  { rootOf authority with method := .purge }

def purgeAllowed : PurgeConf := ⟨true, true, true, true⟩

/-- The page is stored, at every node of a replicated cache. -/
def rootStored (n : Nat) (mode : CacheMode) : CacheSys n :=
  CacheSys.step (fun _ => 0) ⟨mode, fun _ _ => []⟩
    (.add (rootOf (ofAscii "a.example")) fun _ => some freshRoot)

lemma addRoot_valid (n : Nat) :
    CacheOp.Valid (n := n) (.add (rootOf (ofAscii "a.example")) fun _ => some freshRoot) := by
  intro m ce hce
  obtain rfl := Option.some.inj hce
  have h := plainEntry_stored (rootOf (ofAscii "a.example"))
  exact ⟨h.method, h.len, h.start, h.chunks⟩

lemma rootStored_reach (n : Nat) (mode : CacheMode) :
    Reach (fun _ => 0) mode (rootStored n mode) :=
  .step .empty (addRoot_valid n)

/-- After the purge the page is stored again and purged at the other node. -/
theorem purge_effective_sharded :
    NotServedFrom (fun _ => 0) (rootStored 1 .shard)
      (((rootStored 1 .shard).step (fun _ => 0)
        (.purge 0 purgeAllowed (purgeRoot (ofAscii "a.example")))).run (fun _ => 0)
        [.add (rootOf (ofAscii "a.example")) fun _ => some freshRoot,
          .purge 1 purgeAllowed (purgeRoot (ofAscii "a.example"))])
      (rootOf (ofAscii "a.example")) := by
  refine purge_effective (rootStored_reach 1 .shard) rfl (by decide) (.inl rfl) (fun op hop => ?_)
    ⟨rfl, rfl⟩
  simp only [mem_cons, not_mem_nil, or_false] at hop
  obtain rfl | rfl := hop
  · exact addRoot_valid 1
  · rfl

/-- The copy of another node is not purged and is served. -/
theorem replica_serves_purged :
    (purgeMethod (fun _ => 0) purgeAllowed ((rootStored 1 .replica).db 0)
      (purgeRoot (ofAscii "a.example"))).1 = 200 ∧
    processNode (fun _ => 0) ⟨101, fun _ => true, true, true, fun _ => true⟩
      (((rootStored 1 .replica).step (fun _ => 0)
        (.purge 0 purgeAllowed (purgeRoot (ofAscii "a.example")))).db 1)
      (rootOf (ofAscii "a.example")) = .response freshRoot 60 := by
  decide

end Tempesta.Cache
