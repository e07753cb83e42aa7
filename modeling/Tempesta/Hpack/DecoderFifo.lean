import Tempesta.Lib.Run
import Tempesta.Hpack.DecoderTable

/-!
The decoder table against the first-in first-out table of RFC 7541. The
abstract table lists the live entries from the eldest to the youngest. The
circular array refines it along every run that never doubles a non-empty array
whose current index is not zero: there the copying code counts bytes where the
pointer arithmetic counts entries.
-/

namespace Tempesta.Hpack
open List RunLib

/-- An entry without the page mark, which does not belong to the header. -/
def TfwHPackEntry.unmark (e : TfwHPackEntry) : TfwHPackEntry :=
  { e with last := false }

def entrySize (e : TfwHPackEntry) : Nat := hpackEntryOverhead + e.hdr.len

def totalSize (fifo : List TfwHPackEntry) : Nat := (fifo.map entrySize).sum

/-- Evict the eldest entries until the rest fits into `limit`. -/
def evictTo (limit : Nat) : List TfwHPackEntry → List TfwHPackEntry
  | [] => []
  | e :: es => if limit < totalSize (e :: es) then evictTo limit es else e :: es

/-- The abstract table: live entries, eldest first, and the size limits. -/
structure Fifo where
  live : List TfwHPackEntry
  window : Nat
  maxWindow : Nat

/-- A header whose size does not fit into 32 bits is refused; one that exceeds
the window alone empties the table. -/
def Fifo.add (t : Fifo) (it : TfwMsgParseIter) : Fifo :=
  let e := tfwHpackSetEntry it
  if 2 ^ 32 ≤ entrySize e then t
  else if entrySize e ≤ t.window then
    { t with live := evictTo (t.window - entrySize e) t.live ++ [e] }
  else { t with live := [] }

def Fifo.resize (t : Fifo) (newSize : Nat) : Fifo :=
  if t.maxWindow < newSize then t
  else { t with live := evictTo newSize t.live, window := newSize }

def fifoStep (t : Fifo) : DTblOp → Fifo
  | .addIndex it _ => t.add it
  | .setLength newSize => t.resize newSize

def fifoInit (htblSz : UInt32) : Fifo := ⟨[], htblSz.toNat, htblSz.toNat⟩

@[simp] lemma totalSize_nil : totalSize [] = 0 := rfl

variable {e : TfwHPackEntry} {es xs ys : List TfwHPackEntry} {entries : Cells}
  {curr length i newSize j count : Nat} {pool : PoolReply} {tbl : TfwHPackDTbl}
  {it : TfwMsgParseIter}

@[simp] lemma totalSize_cons : totalSize (e :: es) = entrySize e + totalSize es := by
  simp [totalSize]

lemma totalSize_append : totalSize (xs ++ ys) = totalSize xs + totalSize ys := by
  simp [totalSize]

lemma totalSize_evictTo_le (limit : Nat) (xs : List TfwHPackEntry) :
    totalSize (evictTo limit xs) ≤ limit := by
  induction xs with
  | nil => simp [evictTo]
  | cons e es ih =>
    simp only [evictTo]
    split
    · exact ih
    · omega

variable {limit a b k size delta window : Nat} {live : List TfwHPackEntry} {hp : TfwHPack}

lemma evictTo_of_fits (h : totalSize xs ≤ limit) : evictTo limit xs = xs := by
  cases xs with
  | nil => rfl
  | cons e es => simp only [evictTo, if_neg (Nat.not_lt.mpr h)]

lemma length_evictTo_le (limit : Nat) (xs : List TfwHPackEntry) :
    (evictTo limit xs).length ≤ xs.length := by
  induction xs with
  | nil => simp [evictTo]
  | cons e es ih =>
    simp only [evictTo]
    split
    · exact Nat.le_trans ih (Nat.le_succ _)
    · exact Nat.le_refl _

lemma length_mul_overhead_le (xs : List TfwHPackEntry) :
    xs.length * hpackEntryOverhead ≤ totalSize xs := by
  induction xs with
  | nil => simp
  | cons e es ih =>
    simp only [length_cons, totalSize_cons, entrySize, hpackEntryOverhead] at *
    omega

/-- Index of the `i`-th youngest of the entries behind `curr`. -/
def slot (curr length i : Nat) : Nat :=
  if i ≤ curr then curr - i else curr + (length - i)

/-- The array cells from the eldest entry on hold the entries of the list. -/
def Holds (entries : Cells) (curr length : Nat) (fifo : List TfwHPackEntry) : Prop :=
  ∀ k, (h : k < fifo.length) →
    (entries (slot curr length (fifo.length - k))).map TfwHPackEntry.unmark = some fifo[k]

lemma slot_next (hc : curr < length) (hi : i + 1 ≤ length) :
    (if slot curr length (i + 1) + 1 = length then 0 else slot curr length (i + 1) + 1) =
      slot curr length i := by
  simp only [slot]
  split <;> split <;> split <;> omega

lemma slot_ne_curr (hi : 1 ≤ i) (hn : i < length) :
    slot curr length i ≠ curr := by
  simp only [slot]
  split <;> omega

lemma slot_advance (hi : 1 ≤ i) (hn : i < length) :
    slot (if curr + 1 = length then 0 else curr + 1) length (i + 1) = slot curr length i := by
  simp only [slot]
  split <;> split <;> split <;> omega

lemma slot_advance_one : slot (if curr + 1 = length then 0 else curr + 1) length 1 = curr := by
  simp only [slot]
  split <;> split <;> omega

lemma Holds.tail (h : Holds entries curr length (e :: es)) : Holds entries curr length es := by
  intro k hk
  have hcell := h (k + 1) (by simpa using hk)
  simpa only [length_cons, Nat.add_sub_add_right, getElem_cons_succ] using hcell

lemma subU32_of_le (h : b ≤ a) (ha : a < 2 ^ 32) : subU32 a b = a - b := by
  simp only [subU32]
  omega

/-- The eviction loop computes the abstract eviction: it drops the first entry
in any case and stops at the first rest that fits. -/
theorem evictLoop_spec (hc : curr < length) (e : TfwHPackEntry) (es : List TfwHPackEntry)
    (hh : Holds entries curr length (e :: es)) (hn : (e :: es).length ≤ length)
    (hsz : totalSize (e :: es) < 2 ^ 32) :
    evictLoop entries length limit (e :: es).length (slot curr length (e :: es).length)
        (totalSize (e :: es)) =
      some ((evictTo limit es).length, totalSize (evictTo limit es)) := by
  induction es generalizing e with
  | nil =>
    obtain ⟨cp, hcp, hun⟩ := Option.map_eq_some_iff.mp (hh 0 (by simp))
    have hlen : cp.hdr.len = e.hdr.len := congrArg (fun x => x.hdr.len) hun
    simp only [Nat.sub_zero, length_singleton] at hcp
    simp only [length_singleton, evictLoop, hcp, Option.bind_eq_bind, Option.bind_some, hlen]
    have hz : subU32 (totalSize [e]) (hpackEntryOverhead + e.hdr.len) = 0 := by
      rw [subU32_of_le (by simp [entrySize]) hsz]
      simp [entrySize]
    rw [hz, if_neg (Nat.not_lt_zero _)]
    rfl
  | cons f fs ih =>
    obtain ⟨cp, hcp, hun⟩ := Option.map_eq_some_iff.mp (hh 0 (by simp))
    have hlen : cp.hdr.len = e.hdr.len := congrArg (fun x => x.hdr.len) hun
    have hrest : totalSize (f :: fs) < 2 ^ 32 := by
      simp only [totalSize_cons] at hsz ⊢
      omega
    have hsub : subU32 (totalSize (e :: f :: fs)) (hpackEntryOverhead + e.hdr.len) =
        totalSize (f :: fs) := by
      rw [subU32_of_le (by simp [entrySize]) hsz]
      simp [entrySize]
    have hnext := slot_next hc (show (f :: fs).length + 1 ≤ length by simpa using hn)
    simp only [Nat.sub_zero, length_cons (a := e)] at hcp
    rw [length_cons (a := e), evictLoop, hcp]
    simp only [Option.bind_eq_bind, Option.bind_some, hlen, hsub, hnext, evictTo]
    by_cases hfit : limit < totalSize (f :: fs)
    · simp only [if_pos hfit]
      exact ih f hh.tail (by simp only [length_cons] at hn ⊢; omega) hrest
    · simp only [if_neg hfit]

/-- The circular array represents the abstract table. -/
structure Represents (hp : TfwHPack) (t : Fifo) : Prop where
  count : hp.decTbl.n = t.live.length
  room : hp.decTbl.n ≤ hp.decTbl.length
  index : hp.decTbl.curr < hp.decTbl.length ∨ hp.decTbl.curr = 0 ∧ hp.decTbl.length = 0
  cells : Holds hp.decTbl.entries hp.decTbl.curr hp.decTbl.length t.live
  size : hp.decTbl.size = totalSize t.live
  fits : totalSize t.live ≤ t.window
  window : hp.decTbl.window = t.window
  maxWindow : hp.maxWindow = t.maxWindow
  windowLe : t.window ≤ t.maxWindow
  maxWindowLt : t.maxWindow < 2 ^ 32

lemma represents_init (htblSz : UInt32) :
    Represents (tfwHpackInit htblSz) (fifoInit htblSz) where
  count := rfl
  room := Nat.le_refl _
  index := .inr ⟨rfl, rfl⟩
  cells := fun k hk => absurd hk (Nat.not_lt_zero k)
  size := rfl
  fits := Nat.zero_le _
  window := rfl
  maxWindow := rfl
  windowLe := Nat.le_refl _
  maxWindowLt := htblSz.toNat_lt

@[simp] lemma markLast_unmark :
    (markLast entries i j).map TfwHPackEntry.unmark = (entries j).map TfwHPackEntry.unmark := by
  simp only [markLast]
  split
  · cases entries j <;> rfl
  · rfl

lemma putEntry_unmark :
    ((putEntry tbl count newSize it pool).entries j).map TfwHPackEntry.unmark =
      if j = tbl.curr then some (tfwHpackSetEntry it)
      else (tbl.entries j).map TfwHPackEntry.unmark := by
  have hput : ∀ k, Option.map TfwHPackEntry.unmark
      (if k = tbl.curr then some (tfwHpackSetEntry it) else tbl.entries k) =
        if k = tbl.curr then some (tfwHpackSetEntry it)
        else (tbl.entries k).map TfwHPackEntry.unmark := by
    intro k
    split <;> rfl
  simp only [putEntry]
  split
  · rw [markLast_unmark]
    exact hput j
  · exact hput j

lemma Holds.put (h : Holds tbl.entries tbl.curr tbl.length live) (hroom : live.length < tbl.length)
    (it : TfwMsgParseIter) (pool : PoolReply) :
    Holds (putEntry tbl live.length newSize it pool).entries
      (putEntry tbl live.length newSize it pool).curr
      (putEntry tbl live.length newSize it pool).length (live ++ [tfwHpackSetEntry it]) := by
  intro k hk
  rw [putEntry_unmark]
  simp only [putEntry, length_append, length_singleton] at hk ⊢
  by_cases hlast : k = live.length
  · subst hlast
    rw [Nat.add_sub_cancel_left, slot_advance_one]
    simp
  · have hold : k < live.length := by omega
    rw [show live.length + 1 - k = live.length - k + 1 by omega,
      slot_advance (by omega) (by omega), if_neg (slot_ne_curr (by omega) (by omega)),
      getElem_append_left hold]
    exact h k hold

lemma slot_full_zero (hk : k < length) : slot 0 length (length - k) = k := by
  simp only [slot]
  split <;> omega

lemma slot_full_double (hk : k < length) : slot length (length * 2) (length - k) = k := by
  simp only [slot]
  split <;> omega

lemma Holds.grow (h : Holds tbl.entries tbl.curr tbl.length live) (hcount : tbl.n = live.length)
    (hfull : tbl.n = tbl.length) (hcurr : tbl.curr = 0) (hlen : tbl.length * 2 < 2 ^ 32)
    (pool : PoolReply) :
    Holds (growEntries tbl pool).entries (growEntries tbl pool).curr
        (growEntries tbl pool).length live ∧
      live.length < (growEntries tbl pool).length ∧
      (growEntries tbl pool).curr < (growEntries tbl pool).length := by
  have hlive : live.length = tbl.length := by omega
  by_cases hzero : tbl.length = 0
  · have hnil : live = [] := eq_nil_of_length_eq_zero (by omega)
    subst hnil
    refine ⟨fun k hk => absurd hk (Nat.not_lt_zero k), ?_, ?_⟩ <;>
      simp [growEntries, hzero, hcurr]
  · have hcells : ∀ k < tbl.length, (growEntries tbl pool).entries k = tbl.entries k := by
      intro k hk
      have hblock : tbl.length * sizeofTfwHPackEntry / sizeofTfwHPackEntry = tbl.length :=
        Nat.mul_div_cancel _ (by decide)
      have hbelow : ¬ tbl.length * sizeofTfwHPackEntry ≤ k := by
        simp only [sizeofTfwHPackEntry]
        omega
      by_cases hmoved : pool.moved <;>
        simp [growEntries, hzero, hcurr, hmoved, memcpyFast, hblock, hk, hbelow]
    have hcurr' : (growEntries tbl pool).curr = tbl.length := by
      by_cases hmoved : pool.moved <;> simp [growEntries, hzero, hcurr, hmoved, hfull]
    have hlen' : (growEntries tbl pool).length = tbl.length * 2 := by
      by_cases hmoved : pool.moved <;> simp [growEntries, hzero, hcurr, hmoved] <;> omega
    rw [hcurr', hlen']
    refine ⟨?_, by omega, by omega⟩
    intro k hk
    have hold := h k hk
    rw [hcurr, hlive, slot_full_zero (by omega)] at hold
    rw [hlive, slot_full_double (by omega), hcells k (by omega), hold]

/-- The check for overflow in `tfw_hpack_add_index`. -/
theorem overflow_iff (n : Nat) :
    (hpackEntryOverhead + n) % 2 ^ 32 < n ↔ 2 ^ 32 ≤ hpackEntryOverhead + n := by
  simp only [hpackEntryOverhead]
  omega

variable {t : Fifo}

/-- Where the abstract table appends, the array appends: the entry is written
behind the entries `live` that are left, in an array with room for it. -/
theorem Represents.put (hr : Represents hp t) (hcells : Holds tbl.entries tbl.curr tbl.length live)
    (hroom : live.length < tbl.length) (hcurr : tbl.curr < tbl.length)
    (hwindow : tbl.window = t.window)
    (hfits : totalSize live + entrySize (tfwHpackSetEntry it) ≤ t.window) :
    Represents
      { hp with
        decTbl := putEntry tbl live.length
          (totalSize live + entrySize (tfwHpackSetEntry it)) it pool }
      { t with live := live ++ [tfwHpackSetEntry it] } where
  count := by simp [putEntry]
  room := hroom
  index := by
    simp only [putEntry]
    split <;> omega
  cells := hcells.put hroom it pool
  size := by simp [putEntry, totalSize_append]
  fits := by simpa [totalSize_append] using hfits
  window := hwindow
  maxWindow := hr.maxWindow
  windowLe := hr.windowLe
  maxWindowLt := hr.maxWindowLt

lemma Represents.evict (hr : Represents hp t) (hlimit : limit < totalSize t.live) :
    evictLoop hp.decTbl.entries hp.decTbl.length limit hp.decTbl.n (earlyIndex hp.decTbl)
        hp.decTbl.size =
      some ((evictTo limit t.live).length, totalSize (evictTo limit t.live)) := by
  have hearly : earlyIndex hp.decTbl = slot hp.decTbl.curr hp.decTbl.length t.live.length := by
    simp only [earlyIndex, slot, hr.count]
  rw [hearly, hr.count, hr.size]
  have hroom := hr.count ▸ hr.room
  have hcells := hr.cells
  have hlt := Nat.lt_of_le_of_lt (Nat.le_trans hr.fits hr.windowLe) hr.maxWindowLt
  cases hlive : t.live with
  | nil => simp [hlive] at hlimit
  | cons e es =>
    rw [hlive] at hlimit hroom hcells hlt
    have hcurr : hp.decTbl.curr < hp.decTbl.length := by
      have hindex := hr.index
      simp only [length_cons] at hroom
      omega
    rw [evictLoop_spec hcurr e es hcells hroom hlt]
    simp only [evictTo, if_pos hlimit]

lemma Holds.evictTo (h : Holds entries curr length live) :
    Holds entries curr length (evictTo limit live) := by
  induction live with
  | nil => exact h
  | cons e es ih =>
    simp only [Hpack.evictTo]
    split
    · exact ih h.tail
    · exact h

lemma length_evictTo_lt (h : limit < totalSize xs) : (evictTo limit xs).length < xs.length := by
  cases xs with
  | nil => simp at h
  | cons e es =>
    simp only [evictTo, if_pos h]
    exact Nat.lt_succ_of_le (length_evictTo_le limit es)

/-- The step doubles a non-empty array while the current index is not zero. -/
def GrowsWrapped (hp : TfwHPack) : DTblOp → Prop
  | .addIndex it _ =>
    hp.decTbl.n = hp.decTbl.length ∧ hp.decTbl.curr ≠ 0 ∧
      hp.decTbl.size + (hpackEntryOverhead + it.parsedHdr.len) ≤ hp.decTbl.window
  | .setLength _ => False

/-- The comparison modulo `2 ^ 32` decides whether the entry fits. -/
theorem exceeds_iff (hsize : size ≤ window) (hdelta : delta < 2 ^ 32) (hwindow : window < 2 ^ 32) :
    window < (size + delta) % 2 ^ 32 ∨ (size + delta) % 2 ^ 32 < delta ↔
      window < size + delta := by
  omega

lemma Represents.clear (hr : Represents hp t) :
    Represents { hp with decTbl := { hp.decTbl with n := 0, curr := 0, size := 0 } }
      { t with live := [] } where
  count := rfl
  room := Nat.zero_le _
  index := by
    by_cases h : hp.decTbl.length = 0
    · exact .inr ⟨rfl, h⟩
    · exact .inl (Nat.pos_of_ne_zero h)
  cells := fun k hk => absurd hk (Nat.not_lt_zero k)
  size := rfl
  fits := Nat.zero_le _
  window := hr.window
  maxWindow := hr.maxWindow
  windowLe := hr.windowLe
  maxWindowLt := hr.maxWindowLt

lemma Represents.length_lt (hr : Represents hp t) (hfull : hp.decTbl.n = hp.decTbl.length) :
    hp.decTbl.length * 2 < 2 ^ 32 := by
  have hmul := length_mul_overhead_le t.live
  have hcount := hr.count
  have hfits := hr.fits
  have hwin := hr.windowLe
  have hmax := hr.maxWindowLt
  simp only [hpackEntryOverhead] at hmul
  omega

/-- `tfw_hpack_add_index` on a table within its window, with the 32-bit
arithmetic resolved. -/
theorem tfwHpackAddIndex_eq (pool : PoolReply)
    (hsmall : ¬ 2 ^ 32 ≤ hpackEntryOverhead + it.parsedHdr.len) (hsize : tbl.size ≤ tbl.window)
    (hwindow : tbl.window < 2 ^ 32) :
    tfwHpackAddIndex tbl it pool =
      if tbl.window < tbl.size + (hpackEntryOverhead + it.parsedHdr.len) then
        if hpackEntryOverhead + it.parsedHdr.len ≤ tbl.window then
          (evictLoop tbl.entries tbl.length
              (tbl.window - (hpackEntryOverhead + it.parsedHdr.len)) tbl.n (earlyIndex tbl)
              tbl.size).bind fun r =>
            some (.ok (putEntry tbl r.1 (r.2 + (hpackEntryOverhead + it.parsedHdr.len)) it pool))
        else if tbl.n ≠ 0 then some (.ok { tbl with n := 0, curr := 0, size := 0 })
        else some (.ok tbl)
      else if tbl.n = tbl.length then
        some (.ok (putEntry (growEntries tbl pool) tbl.n
          (tbl.size + (hpackEntryOverhead + it.parsedHdr.len)) it pool))
      else
        some (.ok (putEntry tbl tbl.n
          (tbl.size + (hpackEntryOverhead + it.parsedHdr.len)) it pool)) := by
  have hmod : (hpackEntryOverhead + it.parsedHdr.len) % 2 ^ 32 =
      hpackEntryOverhead + it.parsedHdr.len := Nat.mod_eq_of_lt (Nat.not_le.mp hsmall)
  simp only [tfwHpackAddIndex, if_neg ((overflow_iff it.parsedHdr.len).not.mpr hsmall)]
  simp only [hmod, exceeds_iff hsize (Nat.not_le.mp hsmall) hwindow]
  by_cases hover : tbl.window < tbl.size + (hpackEntryOverhead + it.parsedHdr.len)
  · simp only [if_pos hover, Option.bind_eq_bind]
  · have hnew : (tbl.size + (hpackEntryOverhead + it.parsedHdr.len)) % 2 ^ 32 =
        tbl.size + (hpackEntryOverhead + it.parsedHdr.len) := Nat.mod_eq_of_lt (by omega)
    simp only [if_neg hover, hnew]

lemma growEntries_window (tbl : TfwHPackDTbl) (pool : PoolReply) :
    (growEntries tbl pool).window = tbl.window := by
  simp only [growEntries]
  repeat' split
  all_goals rfl

/-- An entry that fits beside all the live ones is appended to the array, which
is doubled first if it is full. -/
theorem Represents.append (hr : Represents hp t) (hg : ¬ GrowsWrapped hp (.addIndex it pool))
    (hfits : totalSize t.live + entrySize (tfwHpackSetEntry it) ≤ t.window) :
    Represents
      { hp with
        decTbl := putEntry
          (if hp.decTbl.n = hp.decTbl.length then growEntries hp.decTbl pool else hp.decTbl)
          t.live.length (totalSize t.live + entrySize (tfwHpackSetEntry it)) it pool }
      { t with live := t.live ++ [tfwHpackSetEntry it] } := by
  have hcount := hr.count
  have hroom := hr.room
  have hindex := hr.index
  by_cases hfull : hp.decTbl.n = hp.decTbl.length
  · have hcurr : hp.decTbl.curr = 0 := by
      by_contra hne
      refine hg ⟨hfull, hne, ?_⟩
      rw [hr.size, hr.window]
      exact hfits
    obtain ⟨hcells, hless, hlt⟩ := hr.cells.grow hcount hfull hcurr (hr.length_lt hfull) pool
    rw [if_pos hfull]
    exact hr.put hcells hless hlt ((growEntries_window _ _).trans hr.window) hfits
  · rw [if_neg hfull]
    exact hr.put hr.cells (by omega) (by omega) hr.window hfits

lemma addIndex_refines (hr : Represents hp t) (it : TfwMsgParseIter) (pool : PoolReply)
    (hg : ¬ GrowsWrapped hp (.addIndex it pool)) :
    ∃ hp', dtblStep hp (.addIndex it pool) = some hp' ∧ Represents hp' (t.add it) := by
  have hsz : entrySize (tfwHpackSetEntry it) = hpackEntryOverhead + it.parsedHdr.len := rfl
  by_cases hbig : 2 ^ 32 ≤ hpackEntryOverhead + it.parsedHdr.len
  · refine ⟨hp, ?_, ?_⟩
    · simp only [dtblStep, tfwHpackAddIndex, if_pos ((overflow_iff _).mpr hbig),
        Option.bind_eq_bind, Option.bind_some]
    · simpa only [Fifo.add, hsz, if_pos hbig] using hr
  have hwindow : hp.decTbl.window < 2 ^ 32 :=
    hr.window ▸ Nat.lt_of_le_of_lt hr.windowLe hr.maxWindowLt
  have hsize : hp.decTbl.size ≤ hp.decTbl.window := by
    rw [hr.size, hr.window]
    exact hr.fits
  simp only [dtblStep, Fifo.add, hsz, if_neg hbig, tfwHpackAddIndex_eq pool hbig hsize hwindow]
  by_cases hover : t.window < totalSize t.live + (hpackEntryOverhead + it.parsedHdr.len)
  · rw [if_pos (by rwa [hr.size, hr.window])]
    by_cases hle : hpackEntryOverhead + it.parsedHdr.len ≤ t.window
    · have hlimit : t.window - (hpackEntryOverhead + it.parsedHdr.len) < totalSize t.live := by
        omega
      have hless := length_evictTo_lt hlimit
      have hroom := hr.count ▸ hr.room
      have hindex := hr.index
      have hfits := totalSize_evictTo_le
        (t.window - (hpackEntryOverhead + it.parsedHdr.len)) t.live
      rw [if_pos (hr.window ▸ hle), if_pos hle, hr.window, hr.evict hlimit]
      exact ⟨_, rfl, hr.put hr.cells.evictTo (by omega) (by omega) hr.window (by omega)⟩
    · rw [if_neg (hr.window ▸ hle), if_neg hle]
      by_cases hn : hp.decTbl.n = 0
      · have hnil : t.live = [] := eq_nil_of_length_eq_zero (by rw [← hr.count, hn])
        refine ⟨hp, by simp [hn], ?_⟩
        rw [← hnil]
        exact hr
      · exact ⟨_, by rw [if_pos hn]; rfl, hr.clear⟩
  · have hfits : totalSize t.live + (hpackEntryOverhead + it.parsedHdr.len) ≤ t.window :=
      Nat.not_lt.mp hover
    rw [if_neg (by rwa [hr.size, hr.window]), if_pos (Nat.le_of_add_left_le hfits),
      evictTo_of_fits (Nat.le_sub_of_add_le hfits)]
    refine ⟨_, ?_, hr.append hg hfits⟩
    rw [hr.size]
    split <;> rw [hr.count] <;> rfl

lemma setLength_refines (hr : Represents hp t) (newSize : Nat) :
    ∃ hp', dtblStep hp (.setLength newSize) = some hp' ∧ Represents hp' (t.resize newSize) := by
  simp only [dtblStep, tfwHpackSetLength, Fifo.resize]
  by_cases hmax : t.maxWindow < newSize
  · rw [if_pos hmax, if_pos (hr.maxWindow ▸ hmax)]
    exact ⟨hp, rfl, hr⟩
  rw [if_neg hmax, if_neg (hr.maxWindow ▸ hmax)]
  have hroom := hr.room
  have hcount := hr.count
  by_cases hlt : newSize < totalSize t.live
  · have hless := length_evictTo_le newSize t.live
    rw [if_pos (hr.size ▸ hlt), hr.evict hlt]
    exact ⟨_, rfl, {
      count := rfl
      room := by simp only; omega
      index := hr.index
      cells := hr.cells.evictTo
      size := rfl
      fits := totalSize_evictTo_le newSize t.live
      window := rfl
      maxWindow := hr.maxWindow
      windowLe := Nat.not_lt.mp hmax
      maxWindowLt := hr.maxWindowLt }⟩
  · rw [if_neg (hr.size ▸ hlt), evictTo_of_fits (Nat.not_lt.mp hlt)]
    exact ⟨_, rfl, {
      count := hcount
      room := hroom
      index := hr.index
      cells := hr.cells
      size := hr.size
      fits := Nat.not_lt.mp hlt
      window := rfl
      maxWindow := hr.maxWindow
      windowLe := Nat.not_lt.mp hmax
      maxWindowLt := hr.maxWindowLt }⟩

lemma dtblStep_refines (hp : TfwHPack) (t : Fifo) (op : DTblOp) (hr : Represents hp t)
    (hg : ¬ GrowsWrapped hp op) :
    ∃ hp', dtblStep hp op = some hp' ∧ Represents hp' (fifoStep t op) := by
  cases op with
  | addIndex it pool => exact addIndex_refines hr it pool hg
  | setLength newSize => exact setLength_refines hr newSize

/-- What a user of the table sees: a dynamic index counts the live entries from
the youngest one, larger indexes find nothing, and the accounting is right. -/
structure ReadsAsFifo (hp : TfwHPack) (t : Fifo) : Prop where
  find : ∀ i, 1 ≤ i →
    (tfwHpackFindIndex hp.decTbl (hpackStaticEntries + i)).map
        (Option.map TfwHPackEntry.unmark) = t.live.reverse[i - 1]?.map some
  count : hp.decTbl.n = t.live.length
  room : hp.decTbl.n ≤ hp.decTbl.length
  size : hp.decTbl.size = totalSize t.live
  fits : hp.decTbl.size ≤ hp.decTbl.window
  window : hp.decTbl.window = t.window

lemma Represents.find (hr : Represents hp t) (hi : 1 ≤ i) :
    (tfwHpackFindIndex hp.decTbl (hpackStaticEntries + i)).map
        (Option.map TfwHPackEntry.unmark) = t.live.reverse[i - 1]?.map some := by
  have hstatic : ¬ hpackStaticEntries + i ≤ hpackStaticEntries := by omega
  simp only [tfwHpackFindIndex, if_neg hstatic, Nat.add_sub_cancel_left]
  by_cases hle : i ≤ hp.decTbl.n
  · have hle' : i ≤ t.live.length := hr.count ▸ hle
    have hcell := hr.cells (t.live.length - i) (by omega)
    rw [Nat.sub_sub_self hle', slot] at hcell
    rw [if_pos hle, Option.map_some, hcell, getElem?_reverse (by omega),
      getElem?_eq_getElem (by omega), Option.map_some]
    simp only [show t.live.length - 1 - (i - 1) = t.live.length - i by omega]
  · have hout : t.live.reverse.length ≤ i - 1 := by
      rw [length_reverse, ← hr.count]
      omega
    rw [if_neg hle, getElem?_eq_none hout]
    rfl

lemma Represents.readsAsFifo (hr : Represents hp t) :
    ReadsAsFifo hp t where
  find := fun _ hi => hr.find hi
  count := hr.count
  room := hr.room
  size := hr.size
  fits := by
    rw [hr.size, hr.window]
    exact hr.fits
  window := hr.window

/-- A run that never doubles a non-empty array with a current index other than
zero refines the first-in first-out table. -/
theorem dtbl_run_reads_as_fifo (htblSz : UInt32) (ops : List DTblOp)
    (hg : Guarded dtblStep (fun hp op => ¬ GrowsWrapped hp op) (tfwHpackInit htblSz) ops) :
    ∃ hp, ops.foldlM dtblStep (tfwHpackInit htblSz) = some hp ∧
      ReadsAsFifo hp (ops.foldl fifoStep (fifoInit htblSz)) := by
  obtain ⟨hp, hrun, hr⟩ := hg.refines dtblStep_refines (represents_init htblSz)
  exact ⟨hp, hrun, hr.readsAsFifo⟩

/-- Adding the header `a: b`, with the array staying in its block. -/
def addShort : DTblOp :=
  .addIndex ⟨⟨[⟨ofAscii "a", false⟩, ⟨ofAscii "b", false⟩]⟩, 1, 1, .raw⟩
    ⟨false, false, fun _ => none⟩

theorem dtbl_run_reads_as_fifo_two_headers :
    ∃ hp, [addShort, addShort].foldlM dtblStep (tfwHpackInit 100) = some hp ∧
      ReadsAsFifo hp ([addShort, addShort].foldl fifoStep (fifoInit 100)) := by
  refine dtbl_run_reads_as_fifo 100 [addShort, addShort] ⟨fun h => h.2.1 rfl, fun hp h => ?_⟩
  obtain rfl := Option.some.inj h
  refine ⟨fun h => absurd h.1 ?_, fun _ _ => trivial⟩
  decide

def wrapRun : List DTblOp :=
  List.replicate 32 addShort ++ [.setLength 1087, .setLength 4096, addShort, addShort]

/-- The eldest of the 33 live entries is not found: its index leads to a place
that was never written. -/
theorem wrapRun_not_reads_as_fifo :
    ¬ ∃ hp, wrapRun.foldlM dtblStep (tfwHpackInit 4096) = some hp ∧
      ReadsAsFifo hp (wrapRun.foldl fifoStep (fifoInit 4096)) := by
  rintro ⟨hp, hrun, hreads⟩
  have hcode : (wrapRun.foldlM dtblStep (tfwHpackInit 4096)).map (fun hp =>
      (tfwHpackFindIndex hp.decTbl (hpackStaticEntries + 33)).map Option.isSome) =
        some (some false) := by decide +kernel
  have hspec : ((wrapRun.foldl fifoStep (fifoInit 4096)).live.reverse[33 - 1]?).isSome = true := by
    decide +kernel
  obtain ⟨e, he⟩ := Option.isSome_iff_exists.mp hspec
  have hfind := hreads.find 33 (by decide)
  rw [hrun, Option.map_some] at hcode
  rw [he] at hfind
  cases hcell : tfwHpackFindIndex hp.decTbl (hpackStaticEntries + 33) with
  | none => simp [hcell] at hfind
  | some cell => cases cell <;> simp [hcell] at hfind hcode

end Tempesta.Hpack
