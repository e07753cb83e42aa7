import Tempesta.Http2.Stream

/-!
The invariant of the stream store, and that every operation on the store keeps
it: the counters are exact, closed streams are in the tree, and requests and
streams are linked in both directions.
-/

namespace Tempesta.Http2

open List H2Store

variable {t t' t₀ : TfwStream} {s s' : H2Store} {id id' weight wnd maxStreams r : Nat}
  {reqs : List (Option Nat)} {f : TfwStream → TfwStream} {state state' : TfwStreamState}
  {res : TfwStreamFsmRes} {type : TfwFrameType} {flags : UInt8} {send : Bool} {P : H2Store → Prop}
  {how : RespFrame} {c : RespClose}

namespace H2Store

def ids (s : H2Store) : List Nat :=
  s.streams.map TfwStream.id

structure Inv (s : H2Store) : Prop where
  nodup : s.ids.Nodup
  num : s.streamsNum = s.streams.length
  closedNum : s.closedNum = s.closed.length
  closedNodup : s.closed.Nodup
  closedMem : ∀ id ∈ s.closed, id ∈ s.ids
  last : ∀ t ∈ s.streams, t.id ≤ s.lstreamId
  linked : ∀ r id, s.reqs[r]? = some (some id) ↔ ∃ t ∈ s.streams, t.id = id ∧ t.msg = some r
  live : ∀ t ∈ s.streams, t.state ≠ .locReserved ∧ t.state ≠ .remReserved

lemma Inv.empty : Inv .empty where
  nodup := nodup_nil
  num := rfl
  closedNum := rfl
  closedNodup := nodup_nil
  closedMem := nofun
  last := nofun
  linked := by simp [H2Store.empty]
  live := nofun

lemma mem_of_find (h : s.tfwH2FindStream id = some t) : t ∈ s.streams ∧ t.id = id :=
  ⟨mem_of_find?_eq_some h, by simpa using find?_some h⟩

lemma find_isSome_iff : (s.tfwH2FindStream id).isSome = true ↔ id ∈ s.ids := by
  simp only [tfwH2FindStream, find?_isSome, ids, mem_map, beq_iff_eq]

lemma exists_find (h : id ∈ s.ids) : ∃ t, s.tfwH2FindStream id = some t :=
  Option.isSome_iff_exists.mp (find_isSome_iff.mpr h)

lemma Inv.eq_of_id (hs : Inv s) (ht : t ∈ s.streams) (ht' : t' ∈ s.streams) (h : t.id = t'.id) :
    t = t' :=
  inj_on_of_nodup_map hs.nodup ht ht' h

/-- There are never as many streams as `max_streams` permits. -/
theorem Inv.streamsNum_lt (hs : Inv s) (hlast : s.lstreamId < 2 ^ 31) :
    s.streamsNum < 0xffffffff := by
  have hsub : s.ids.toFinset ⊆ Finset.range (2 ^ 31) := by
    intro id hid
    obtain ⟨t, ht, rfl⟩ := mem_map.mp (mem_toFinset.mp hid)
    exact Finset.mem_range.mpr (Nat.lt_of_le_of_lt (hs.last t ht) hlast)
  have hcard := Finset.card_le_card hsub
  rw [toFinset_card_of_nodup hs.nodup, Finset.card_range, ids, length_map,
    ← hs.num] at hcard
  omega

lemma mem_update :
    t' ∈ (s.update id f).streams ↔ ∃ t ∈ s.streams, (if t.id = id then f t else t) = t' := by
  simp only [update, mem_map]

lemma ids_update (hid : ∀ t, (f t).id = t.id) : (s.update id f).ids = s.ids := by
  simp only [ids, update, map_map]
  apply map_congr_left
  intro t _
  by_cases h : t.id = id
  · simp only [Function.comp_apply, if_pos h, hid]
  · simp only [Function.comp_apply, if_neg h]

lemma find_update (hid : ∀ t, (f t).id = t.id) (id' : Nat) :
    (s.update id f).tfwH2FindStream id' =
      (s.tfwH2FindStream id').map fun t => if id' = id then f t else t := by
  simp only [tfwH2FindStream, update, find?_map]
  have hp : ((fun t : TfwStream => t.id == id') ∘ fun t => if t.id = id then f t else t) =
      fun t => t.id == id' := by
    funext t
    by_cases h : t.id = id
    · simp only [Function.comp_apply, if_pos h, hid]
    · simp only [Function.comp_apply, if_neg h]
  rw [hp]
  cases ht : s.streams.find? fun t => t.id == id' with
  | none => rfl
  | some t =>
    have htid : t.id = id' := by simpa using find?_some ht
    simp only [Option.map_some, htid]

lemma find_update_state (h : (s.update id f).tfwH2FindStream id' = some t')
    (hid : ∀ t, (f t).id = t.id) (hstate : ∀ t, (f t).state = t.state) :
    ∃ t, s.tfwH2FindStream id' = some t ∧ t'.state = t.state := by
  rw [find_update hid] at h
  obtain ⟨t, ht, rfl⟩ := Option.map_eq_some_iff.mp h
  refine ⟨t, ht, ?_⟩
  by_cases hid' : id' = id
  · rw [if_pos hid', hstate]
  · rw [if_neg hid']

lemma Inv.of_update (hs : Inv s) (hid : ∀ t, (f t).id = t.id)
    (hlive : ∀ t ∈ s.streams, t.id = id → (f t).state ≠ .locReserved ∧ (f t).state ≠ .remReserved)
    (hlinked : ∀ r i, reqs[r]? = some (some i) ↔
      ∃ t ∈ (s.update id f).streams, t.id = i ∧ t.msg = some r) :
    Inv { s.update id f with reqs := reqs } where
  nodup := by
    rw [show ids { s.update id f with reqs := reqs } = s.ids from ids_update hid]
    exact hs.nodup
  num := by simpa only [update, length_map] using hs.num
  closedNum := hs.closedNum
  closedNodup := hs.closedNodup
  closedMem := by
    rw [show ids { s.update id f with reqs := reqs } = s.ids from ids_update hid]
    exact hs.closedMem
  last := by
    intro t' ht'
    obtain ⟨t, ht, rfl⟩ := mem_update.mp ht'
    by_cases h : t.id = id
    · rw [if_pos h, hid]
      exact hs.last t ht
    · rw [if_neg h]
      exact hs.last t ht
  linked := hlinked
  live := by
    intro t' ht'
    obtain ⟨t, ht, rfl⟩ := mem_update.mp ht'
    by_cases h : t.id = id
    · rw [if_pos h]
      exact hlive t ht h
    · rw [if_neg h]
      exact hs.live t ht

lemma Inv.update (hs : Inv s) (hid : ∀ t, (f t).id = t.id) (hmsg : ∀ t, (f t).msg = t.msg)
    (hlive : ∀ t ∈ s.streams, t.id = id → (f t).state ≠ .locReserved ∧ (f t).state ≠ .remReserved) :
    Inv (s.update id f) := by
  refine hs.of_update hid hlive fun r i => (hs.linked r i).trans ⟨?_, ?_⟩
  · rintro ⟨t, ht, hti, htm⟩
    refine ⟨_, mem_update.mpr ⟨t, ht, rfl⟩, ?_, ?_⟩
    · by_cases h : t.id = id
      · rw [if_pos h, hid, hti]
      · rw [if_neg h, hti]
    · by_cases h : t.id = id
      · rw [if_pos h, hmsg, htm]
      · rw [if_neg h, htm]
  · rintro ⟨t', ht', hti, htm⟩
    obtain ⟨t, ht, rfl⟩ := mem_update.mp ht'
    by_cases h : t.id = id
    · rw [if_pos h, hid] at hti
      rw [if_pos h, hmsg] at htm
      exact ⟨t, ht, hti, htm⟩
    · rw [if_neg h] at hti htm
      exact ⟨t, ht, hti, htm⟩

lemma ids_setState (s : H2Store) (id : Nat) (state : TfwStreamState) :
    (s.setState id state).ids = s.ids :=
  ids_update fun _ => rfl

lemma find_setState :
    (s.setState id state).tfwH2FindStream id' =
      (s.tfwH2FindStream id').map fun t => if id' = id then { t with state := state } else t := by
  refine find_update ?_ id'
  exact fun _ => rfl

lemma find_setState_self (state : TfwStreamState) (h : s.tfwH2FindStream id = some t) :
    (s.setState id state).tfwH2FindStream id = some { t with state := state } := by
  rw [find_setState, h, Option.map_some, if_pos rfl]

lemma Inv.setState (hs : Inv s) (id : Nat) (hlive : state ≠ .locReserved ∧ state ≠ .remReserved) :
    Inv (s.setState id state) :=
  hs.update (fun _ => rfl) (fun _ => rfl) fun _ _ _ => hlive

lemma tfwH2StreamFsm_live (hlive : state ≠ .locReserved ∧ state ≠ .remReserved)
    (h : tfwH2StreamFsm state type flags send = .ok (state', res)) :
    state' ≠ .locReserved ∧ state' ≠ .remReserved := by
  unfold tfwH2StreamFsm at h
  cases state <;> grind

lemma Inv.addClosed (hs : Inv s) (hid : id ∈ s.ids) : Inv (s.tfwH2StreamAddClosed id) := by
  unfold tfwH2StreamAddClosed
  by_cases h : id ∈ s.closed
  · rw [if_pos h]
    exact hs
  rw [if_neg h]
  exact {
    hs with
    closedNum := by simp only [length_append, length_singleton, hs.closedNum]
    closedNodup := by
      rw [nodup_append]
      refine ⟨hs.closedNodup, nodup_singleton id, ?_⟩
      intro a ha b hb heq
      rw [mem_singleton.mp hb] at heq
      exact h (heq ▸ ha)
    closedMem := by
      intro a ha
      rcases mem_append.mp ha with ha | ha
      · exact hs.closedMem a ha
      · exact mem_singleton.mp ha ▸ hid }

lemma tfwH2StreamCreate_some (h : s.tfwH2StreamCreate id weight wnd = some s') :
    id ∉ s.ids ∧ ∃ t : TfwStream, t.id = id ∧ t.state = .opened ∧ t.msg = none ∧
      s' = { s with streams := s.streams ++ [t], streamsNum := s.streamsNum + 1 } := by
  unfold tfwH2StreamCreate tfwH2AddStream at h
  by_cases hin : (s.tfwH2FindStream id).isSome = true
  · rw [if_pos hin] at h
    cases h
  rw [if_neg hin] at h
  cases h
  exact ⟨fun h => hin (find_isSome_iff.mpr h), _, rfl, rfl, rfl, rfl⟩

lemma Inv.create (hs : Inv s) (hlast : s.lstreamId < id)
    (h : s.tfwH2StreamCreate id weight wnd = some s') : Inv { s' with lstreamId := id } := by
  obtain ⟨hin, t₀, hid, hstate, hmsg, rfl⟩ := tfwH2StreamCreate_some h
  have hids : ids { s with streams := s.streams ++ [t₀] } = s.ids ++ [id] := by
    simp only [ids, map_append, map_singleton, hid]
  constructor
  · show (ids { s with streams := s.streams ++ [t₀] }).Nodup
    rw [hids, nodup_append]
    refine ⟨hs.nodup, nodup_singleton _, ?_⟩
    intro a ha b hb heq
    rw [mem_singleton.mp hb] at heq
    exact hin (heq ▸ ha)
  · simp only [length_append, length_singleton, hs.num]
  · exact hs.closedNum
  · exact hs.closedNodup
  · intro a ha
    show a ∈ ids { s with streams := s.streams ++ [t₀] }
    rw [hids]
    exact mem_append_left _ (hs.closedMem a ha)
  · intro t ht
    show t.id ≤ id
    rcases mem_append.mp ht with ht | ht
    · exact Nat.le_trans (hs.last t ht) (Nat.le_of_lt hlast)
    · exact Nat.le_of_eq (mem_singleton.mp ht ▸ hid)
  · intro r i
    refine (hs.linked r i).trans ⟨?_, ?_⟩
    · rintro ⟨t, ht, h⟩
      exact ⟨t, mem_append_left _ ht, h⟩
    · rintro ⟨t, ht, hti, htm⟩
      rcases mem_append.mp ht with ht | ht
      · exact ⟨t, ht, hti, htm⟩
      · rw [mem_singleton.mp ht, hmsg] at htm
        cases htm
  · intro t ht
    rcases mem_append.mp ht with ht | ht
    · exact hs.live t ht
    · rw [mem_singleton.mp ht, hstate]
      exact ⟨nofun, nofun⟩

lemma unlink_closed (s : H2Store) (t₀ : TfwStream) :
    (s.tfwH2StreamUnlink t₀).closed = s.closed.erase t₀.id := by
  unfold tfwH2StreamUnlink
  by_cases h : t₀.id ∈ s.closed
  · cases hm : t₀.msg <;> simp only [if_pos h]
  · cases hm : t₀.msg <;> simp only [if_neg h, erase_of_not_mem h]

lemma unlink_closedNum (hs : Inv s) :
    (s.tfwH2StreamUnlink t₀).closedNum = (s.closed.erase t₀.id).length := by
  have hnum := hs.closedNum
  unfold tfwH2StreamUnlink
  by_cases h : t₀.id ∈ s.closed
  · cases hm : t₀.msg <;> simp only [if_pos h, length_erase_of_mem h, hnum]
  · cases hm : t₀.msg <;> simp only [if_neg h, erase_of_not_mem h, hnum]

lemma unlink_rest (s : H2Store) (t₀ : TfwStream) :
    (s.tfwH2StreamUnlink t₀).streams = s.streams ∧
      (s.tfwH2StreamUnlink t₀).streamsNum = s.streamsNum ∧
      (s.tfwH2StreamUnlink t₀).lstreamId = s.lstreamId := by
  unfold tfwH2StreamUnlink
  by_cases h : t₀.id ∈ s.closed
  · cases hm : t₀.msg <;> simp only [if_pos h, and_self]
  · cases hm : t₀.msg <;> simp only [if_neg h, and_self]

lemma unlink_reqs :
    (s.tfwH2StreamUnlink t₀).reqs =
      match t₀.msg with
      | some r => s.reqs.set r none
      | none => s.reqs := by
  unfold tfwH2StreamUnlink
  by_cases h : t₀.id ∈ s.closed
  · cases hm : t₀.msg <;> simp only [if_pos h]
  · cases hm : t₀.msg <;> simp only [if_neg h]

lemma unlink_reqs_iff (hs : Inv s) (ht₀ : t₀ ∈ s.streams) (r id : Nat) :
    (s.tfwH2StreamUnlink t₀).reqs[r]? = some (some id) ↔
      s.reqs[r]? = some (some id) ∧ id ≠ t₀.id := by
  rw [unlink_reqs]
  cases hm : t₀.msg with
  | none =>
    refine ⟨fun h => ⟨h, ?_⟩, fun h => h.1⟩
    rintro rfl
    obtain ⟨t, ht, hti, htm⟩ := (hs.linked r t₀.id).mp h
    rw [hs.eq_of_id ht ht₀ hti, hm] at htm
    cases htm
  | some r₀ =>
    simp only [getElem?_set]
    have hlink := (hs.linked r₀ t₀.id).mpr ⟨t₀, ht₀, rfl, hm⟩
    by_cases hr : r₀ = r
    · subst hr
      rw [if_pos rfl]
      constructor
      · split_ifs
        · nofun
        · nofun
      · rintro ⟨h, hne⟩
        rw [hlink] at h
        cases h
        exact absurd rfl hne
    · rw [if_neg hr]
      refine ⟨fun h => ⟨h, ?_⟩, fun h => h.1⟩
      rintro rfl
      obtain ⟨t, ht, hti, htm⟩ := (hs.linked r t₀.id).mp h
      rw [hs.eq_of_id ht ht₀ hti, hm] at htm
      exact hr (Option.some.inj htm)

lemma length_filter_id (hs : Inv s) (ht₀ : t₀ ∈ s.streams) :
    (s.streams.filter fun t => t.id != t₀.id).length = s.streams.length - 1 := by
  have hids : ((s.streams.filter fun t => t.id != t₀.id).map TfwStream.id) =
      s.ids.erase t₀.id := by
    rw [hs.nodup.erase_eq_filter]
    simp only [ids, filter_map]
    rfl
  have hmem : t₀.id ∈ s.ids := mem_map_of_mem ht₀
  have := congrArg List.length hids
  rw [length_map, length_erase_of_mem hmem] at this
  simpa only [ids, length_map] using this

lemma Inv.unlink_clean (hs : Inv s) (ht₀ : t₀ ∈ s.streams) :
    Inv ((s.tfwH2StreamUnlink t₀).tfwH2StreamClean t₀.id) := by
  obtain ⟨hstreams, hnum, hlast⟩ := unlink_rest s t₀
  have hmem : ∀ t, t ∈ ((s.tfwH2StreamUnlink t₀).tfwH2StreamClean t₀.id).streams ↔
      t ∈ s.streams ∧ t.id ≠ t₀.id := by
    intro t
    simp only [tfwH2StreamClean, hstreams, mem_filter, bne_iff_ne]
  constructor
  · simp only [ids, tfwH2StreamClean, hstreams]
    exact hs.nodup.sublist (filter_sublist.map TfwStream.id)
  · simp only [tfwH2StreamClean, hstreams, hnum, length_filter_id hs ht₀, hs.num]
  · exact (unlink_closedNum hs).trans (congrArg List.length (unlink_closed s t₀).symm)
  · simp only [tfwH2StreamClean, unlink_closed]
    exact hs.closedNodup.erase _
  · simp only [tfwH2StreamClean, unlink_closed]
    intro a ha
    obtain ⟨hne, ha⟩ := (hs.closedNodup.mem_erase_iff).mp ha
    obtain ⟨t, ht, rfl⟩ := mem_map.mp (hs.closedMem a ha)
    exact mem_map_of_mem ((hmem t).mpr ⟨ht, hne⟩)
  · intro t ht
    simp only [tfwH2StreamClean, hlast]
    exact hs.last t ((hmem t).mp ht).1
  · intro r id
    simp only [tfwH2StreamClean]
    rw [unlink_reqs_iff hs ht₀, hs.linked]
    constructor
    · rintro ⟨⟨t, ht, rfl, htm⟩, hne⟩
      exact ⟨t, (hmem t).mpr ⟨ht, hne⟩, rfl, htm⟩
    · rintro ⟨t, ht, rfl, htm⟩
      obtain ⟨ht, hne⟩ := (hmem t).mp ht
      exact ⟨⟨t, ht, rfl, htm⟩, hne⟩
  · intro t ht
    exact hs.live t ((hmem t).mp ht).1

lemma remove_ok (h : s.remove id = .ok s') :
    ∃ t, s.tfwH2FindStream id = some t ∧ s' = (s.tfwH2StreamUnlink t).tfwH2StreamClean t.id := by
  unfold remove at h
  cases hf : s.tfwH2FindStream id with
  | none =>
    rw [hf] at h
    cases h
  | some t =>
    rw [hf] at h
    cases h
    exact ⟨t, rfl, by rw [(mem_of_find hf).2]⟩

lemma Inv.remove (hs : Inv s) (h : s.remove id = .ok s') : Inv s' := by
  obtain ⟨t, hf, rfl⟩ := remove_ok h
  exact hs.unlink_clean (mem_of_find hf).1

lemma mem_of_remove (h : s.remove id = .ok s') : t ∈ s'.streams ↔ t ∈ s.streams ∧ t.id ≠ id := by
  obtain ⟨t₀, hf, rfl⟩ := remove_ok h
  simp only [tfwH2StreamClean, (unlink_rest s t₀).1, mem_filter, bne_iff_ne,
    (mem_of_find hf).2]

lemma remove_lstreamId (h : s.remove id = .ok s') :
    s'.lstreamId = s.lstreamId := by
  obtain ⟨t₀, -, rfl⟩ := remove_ok h
  exact (unlink_rest s t₀).2.2

lemma exists_remove (h : id ∈ s.ids) : ∃ s', s.remove id = .ok s' := by
  obtain ⟨t, ht⟩ := exists_find h
  unfold remove
  rw [ht]
  exact ⟨_, rfl⟩

/-- A property that the removal of a stream keeps is kept by the whole loop, and
the loop does not meet an empty queue. -/
theorem shrinkFrom_spec (hstep : ∀ s id s', P s → s.remove id = .ok s' → P s') (n : Nat)
    (hs : Inv s) (hp : P s) : ∃ s', shrinkFrom maxStreams n s = .ok s' ∧ Inv s' ∧ P s' := by
  induction n generalizing s with
  | zero => exact ⟨s, rfl, hs, hp⟩
  | succ n ih =>
    rw [shrinkFrom]
    by_cases hstop : s.closedNum ≤ tfwMaxClosedStreams ∨
        maxStreams = s.streamsNum ∧ s.closedNum ≠ 0
    · rw [if_pos hstop]
      exact ⟨s, rfl, hs, hp⟩
    rw [if_neg hstop]
    have hnum := hs.closedNum
    cases hc : s.closed with
    | nil =>
      rw [hc, length_nil] at hnum
      exact absurd (.inl (by omega)) hstop
    | cons id rest =>
      have hid : id ∈ s.ids := hs.closedMem id (hc ▸ mem_cons_self ..)
      obtain ⟨s₁, h₁⟩ := exists_remove hid
      simp only [h₁]
      exact ih (hs.remove h₁) (hstep s id s₁ hp h₁)

lemma shrink_spec (maxStreams : Nat) (hstep : ∀ s id s', P s → s.remove id = .ok s' → P s')
    (hs : Inv s) (hp : P s) :
    ∃ s', s.tfwH2ClosedStreamsShrink maxStreams = .ok s' ∧ Inv s' ∧ P s' :=
  shrinkFrom_spec hstep s.closedNum hs hp

lemma streamSendProcess_some (h : s.streamSendProcess (some id) type flags = .ok (s', res)) :
    ∃ t state, s.tfwH2FindStream id = some t ∧
      tfwH2StreamFsm t.state type flags true = .ok (state, res) ∧ s' = s.setState id state := by
  simp only [streamSendProcess] at h
  cases hf : s.tfwH2FindStream id with
  | none =>
    rw [hf] at h
    cases h
  | some t =>
    rw [hf] at h
    simp only at h
    cases hfsm : tfwH2StreamFsm t.state type flags true with
    | error e =>
      rw [hfsm] at h
      cases h
    | ok r =>
      rw [hfsm] at h
      cases h
      exact ⟨t, r.1, rfl, hfsm, rfl⟩

lemma respFsm_live (hlive : state ≠ .locReserved ∧ state ≠ .remReserved)
    (h : respFsm state how = .ok state') : state' ≠ .locReserved ∧ state' ≠ .remReserved := by
  unfold respFsm at h
  cases hframe : how.frame with
  | none =>
    rw [hframe] at h
    cases h
    exact hlive
  | some f =>
    rw [hframe] at h
    simp only at h
    cases hfsm : tfwH2StreamFsm state f.1 f.2 true with
    | error e =>
      rw [hfsm] at h
      cases h
    | ok r =>
      rw [hfsm] at h
      cases h
      exact tfwH2StreamFsm_live hlive hfsm

lemma getElem?_of_getD (h : reqs.getD r none = some id) : reqs[r]? = some (some id) := by
  rw [getD_eq_getElem?_getD] at h
  cases hg : reqs[r]? with
  | none =>
    rw [hg] at h
    cases h
  | some o =>
    rw [hg] at h
    exact congrArg some h

/-- What `tfw_h2_stream_id_close` does for a linked request: the state machine for
the frame of the response, then the stream is unlinked and queued as closed. -/
theorem tfwH2StreamIdClose_ok (h : s.tfwH2StreamIdClose c = .ok s') :
    s' = s ∨ ∃ id t state, s.reqs[c.req]? = some (some id) ∧ s.tfwH2FindStream id = some t ∧
      respFsm t.state c.how = .ok state ∧
      s' = H2Store.tfwH2StreamAddClosed
        { s.update id fun t => { t with state := state, msg := none } with
          reqs := s.reqs.set c.req none } id := by
  unfold tfwH2StreamIdClose at h
  cases hr : s.reqs.getD c.req none with
  | none =>
    rw [hr] at h
    cases h
    exact .inl rfl
  | some id =>
    right
    rw [hr] at h
    simp only at h
    have hreq := getElem?_of_getD hr
    cases hf : s.tfwH2FindStream id with
    | none =>
      rw [hf] at h
      cases h
    | some t =>
      rw [hf] at h
      simp only at h
      cases hfsm : respFsm t.state c.how with
      | error e =>
        rw [hfsm] at h
        cases h
      | ok state =>
        rw [hfsm] at h
        cases h
        exact ⟨id, t, state, hreq, hf, hfsm, rfl⟩

lemma Inv.unlinkReq (hs : Inv s) (hreq : s.reqs[r]? = some (some id))
    (hlive : state ≠ .locReserved ∧ state ≠ .remReserved) :
    Inv { s.update id fun t => { t with state := state, msg := none } with
      reqs := s.reqs.set r none } := by
  obtain ⟨t₀, ht₀, hid₀, hm₀⟩ := (hs.linked r id).mp hreq
  refine hs.of_update ?_ ?_ ?_
  · exact fun _ => rfl
  · exact fun _ _ _ => hlive
  intro r' i
  simp only [getElem?_set]
  by_cases hr : r = r'
  · subst hr
    rw [if_pos rfl]
    constructor
    · split_ifs
      · nofun
      · nofun
    · rintro ⟨t', ht', rfl, hm'⟩
      obtain ⟨t, ht, rfl⟩ := mem_update.mp ht'
      by_cases h : t.id = id
      · rw [if_pos h] at hm'
        cases hm'
      · rw [if_neg h] at hm'
        have := (hs.linked r t.id).mpr ⟨t, ht, rfl, hm'⟩
        rw [hreq] at this
        cases this
        exact absurd rfl h
  · rw [if_neg hr, hs.linked]
    constructor
    · rintro ⟨t, ht, rfl, hm⟩
      have hne : t.id ≠ id := by
        intro h
        rw [hs.eq_of_id ht ht₀ (h.trans hid₀.symm), hm₀] at hm
        exact hr (Option.some.inj hm)
      exact ⟨t, mem_update.mpr ⟨t, ht, if_neg hne⟩, rfl, hm⟩
    · rintro ⟨t', ht', rfl, hm'⟩
      obtain ⟨t, ht, rfl⟩ := mem_update.mp ht'
      by_cases h : t.id = id
      · rw [if_pos h] at hm'
        cases hm'
      · rw [if_neg h] at hm' ⊢
        exact ⟨t, ht, rfl, hm'⟩

lemma Inv.idClose (hs : Inv s) (h : s.tfwH2StreamIdClose c = .ok s') : Inv s' := by
  rcases tfwH2StreamIdClose_ok h with rfl | ⟨id, t, state, hreq, hf, hfsm, rfl⟩
  · exact hs
  · obtain ⟨ht, rfl⟩ := mem_of_find hf
    apply (hs.unlinkReq hreq (respFsm_live (hs.live t ht) hfsm)).addClosed
    rw [show ids { s.update t.id fun t => { t with state := state, msg := none } with
      reqs := s.reqs.set c.req none } = s.ids from ids_update fun _ => rfl]
    exact mem_map_of_mem ht

lemma Inv.link (hs : Inv s) (hf : s.tfwH2FindStream id = some t₀) (hm₀ : t₀.msg = none) :
    Inv { s.update id fun t => { t with msg := some s.reqs.length } with
      reqs := s.reqs ++ [some id] } := by
  obtain ⟨ht₀, hid₀⟩ := mem_of_find hf
  refine hs.of_update ?_ ?_ ?_
  · exact fun _ => rfl
  · exact fun t ht _ => hs.live t ht
  intro r i
  constructor
  · intro hr
    by_cases hlt : r < s.reqs.length
    · rw [List.getElem?_append_left hlt, hs.linked] at hr
      obtain ⟨t, ht, rfl, hm⟩ := hr
      have hne : t.id ≠ id := by
        intro h
        rw [hs.eq_of_id ht ht₀ (h.trans hid₀.symm), hm₀] at hm
        cases hm
      exact ⟨t, mem_update.mpr ⟨t, ht, if_neg hne⟩, rfl, hm⟩
    · have hlen : r < (s.reqs ++ [some id]).length := (List.getElem?_eq_some_iff.mp hr).1
      rw [length_append, length_singleton] at hlen
      obtain rfl : r = s.reqs.length := by omega
      rw [getElem?_concat_length] at hr
      cases hr
      exact ⟨_, mem_update.mpr ⟨t₀, ht₀, if_pos hid₀⟩, hid₀, rfl⟩
  · rintro ⟨t', ht', rfl, hm'⟩
    obtain ⟨t, ht, rfl⟩ := mem_update.mp ht'
    by_cases h : t.id = id
    · rw [if_pos h] at hm' ⊢
      cases hm'
      rw [getElem?_concat_length, h]
    · rw [if_neg h] at hm' ⊢
      have hr := (hs.linked r t.id).mpr ⟨t, ht, rfl, hm'⟩
      rw [List.getElem?_append_left (List.getElem?_eq_some_iff.mp hr).1]
      exact hr

end H2Store
end Tempesta.Http2
