import FrameworkTests.Transport.Incoming

/-!
# Several requests over one transport

Every test makes a transport of its own and sets one request.  This module says what
the reader of a transport gets that is used again.  A chunk is written where the
reader stands and the reader is sent back to the start, so it reads once more what it
has read since the chunk before, then the new chunk, and then what the chunk has not
covered (`unread_next_chunk`).

Two ways of using a transport come out of this in closed form.  Requests that are
each read up before the next one arrives accumulate: the `k`-th time the reader gets
the first `k` of them (`outputs_successive`).  Chunks that arrive before anything is
read lie on top of each other: at each place the last one that reaches it shows
(`inData_chunks`).

## Main definitions

* `readAll n ds` — each of the chunks `ds` is set and read with limit `n`.
* `overlay u d` — the bytes `d` on top of `u`.
-/

namespace FrameworkTests.HttpMemoryTransport

open Run

/-- The bytes some reads hand out, from `t` on. -/
def readsFrom (ns : List ℕ+) (t : HttpMemoryTransport) : Bytes :=
  ((history feed (ns.map .readData) t).map Prod.snd).flatten

theorem openMode_after (fs : List Feed) :
    (after feed fs new).ingoing.openMode = .readWrite :=
  Source.valid_after (S := feedSource) fs (s := new) rfl

/-- A chunk overwrites at the position and leaves the reader at the start. -/
theorem ingoing_setIncoming {t : HttpMemoryTransport} (h : t.ingoing.openMode = .readWrite)
    (d : Bytes) :
    (t.setIncoming d).ingoing = { t.ingoing with cursor := (t.ingoing.cursor.write d).rewind } := by
  have hw : (t.ingoing.write d).2.openMode = .readWrite := by simp [h]
  change (t.ingoing.write d).2.reset.2 = _
  rw [Buffer.reset_eq hw, Buffer.write_eq h]

/-- What reads hand out and what they leave is what was unread, in the same content. -/
theorem readsFrom_append_unread (ns : List ℕ+) {t : HttpMemoryTransport}
    (h : t.ingoing.openMode = .readWrite) :
    readsFrom ns t ++ (after feed (ns.map .readData) t).ingoing.unread = t.ingoing.unread ∧
      (after feed (ns.map .readData) t).inData = t.inData := by
  constructor
  · exact Source.delivered_reads (S := feedSource) ns h
  · induction ns generalizing t with
    | nil => rfl
    | cons n ns ih =>
        exact (ih (openMode_feed h (.readData n))).trans (Buffer.data_read n t.ingoing)

/-- A chunk behind some reads from the start of the content. -/
theorem unread_setIncoming_of_reads (ns : List ℕ+) (d : Bytes) {t : HttpMemoryTransport}
    (h : t.ingoing.openMode = .readWrite) (hpos : t.pos = 0) :
    ((after feed (ns.map .readData) t).setIncoming d).ingoing.unread =
      readsFrom ns t ++ d ++ t.inData.drop ((readsFrom ns t).length + d.length) := by
  obtain ⟨hunread, hdata⟩ := readsFrom_append_unread ns h
  have hopen : (after feed (ns.map .readData) t).ingoing.openMode = .readWrite :=
    Source.valid_after (S := feedSource) _ h
  have hstart : t.ingoing.unread = t.inData := by
    change t.inData.drop t.pos = t.inData
    rw [hpos, List.drop_zero]
  generalize after feed (ns.map .readData) t = m at *
  rw [hstart] at hunread
  -- the part before the position is what was read
  have hread : m.inData.take m.pos = readsFrom ns t := by
    have hsplit : m.inData.take m.pos ++ m.ingoing.unread = readsFrom ns t ++ m.ingoing.unread := by
      rw [hunread, ← hdata]
      exact List.take_append_drop _ _
    exact List.append_cancel_right hsplit
  rw [unread_setIncoming hopen, Cursor.unread_rewind, Cursor.data_write_eq_unread]
  change m.inData.take m.pos ++ d ++ m.ingoing.unread.drop d.length = _
  rw [hread, ← hunread, ← List.drop_drop, List.drop_left]

/-- **The next chunk.**  Behind any run that ends with a chunk, and some reads, a further
chunk puts before the reader what it has read since, the chunk itself, and what the
chunk has not covered. -/
theorem unread_next_chunk (fs : List Feed) (c d : Bytes) (ns : List ℕ+) :
    let t := (after feed fs new).setIncoming c
    ((after feed (ns.map .readData) t).setIncoming d).ingoing.unread =
      readsFrom ns t ++ d ++ t.inData.drop ((readsFrom ns t).length + d.length) := by
  intro t
  have hopen := openMode_after fs
  have ht : t.ingoing = _ := ingoing_setIncoming hopen c
  apply unread_setIncoming_of_reads
  · rw [ht]
    exact hopen
  · rw [pos, ht]
    rfl

/-! ### Requests one after another -/

/-- Every chunk is set and then read with limit `n`. -/
def readAll (n : ℕ+) (ds : List Bytes) : List Feed :=
  ds.flatMap fun d => [.setIncoming d, .readData n]

/-- A chunk behind content that has been read up, read up itself. -/
theorem feed_readAll {n : ℕ+} {d : Bytes} {t : HttpMemoryTransport}
    (h : t.ingoing.openMode = .readWrite) (hread : t.ingoing.unread = [])
    (hn : (t.inData ++ d).length ≤ n) :
    (feed (.readData n) (t.setIncoming d)).1 = t.inData ++ d ∧
      (feed (.readData n) (t.setIncoming d)).2.ingoing.openMode = .readWrite ∧
      (feed (.readData n) (t.setIncoming d)).2.ingoing.unread = [] ∧
      (feed (.readData n) (t.setIncoming d)).2.inData = t.inData ++ d := by
  have hopen : (t.setIncoming d).ingoing.openMode = .readWrite := openMode_feed h (.setIncoming d)
  have hdata : (t.setIncoming d).inData = t.inData ++ d := by
    rw [inData, ingoing_setIncoming h]
    exact Cursor.data_write_of_unread_eq_nil hread d
  have hunread : (t.setIncoming d).ingoing.unread = t.inData ++ d := by
    rw [unread_setIncoming h, ← hdata, inData, ingoing_setIncoming h]
    rfl
  refine ⟨?_, openMode_feed hopen (.readData n), ?_, ?_⟩
  · rw [feed_readData hopen, hunread, List.take_of_length_le hn]
  · have hdrop := Buffer.unread_read (b := (t.setIncoming d).ingoing) hopen n
    rw [hunread, List.drop_eq_nil_of_le hn] at hdrop
    exact hdrop
  · exact (Buffer.data_read n _).trans hdata

theorem outputs_readAll {n : ℕ+} {ds : List Bytes} {t : HttpMemoryTransport}
    (h : t.ingoing.openMode = .readWrite) (hread : t.ingoing.unread = [])
    (hn : (t.inData ++ ds.flatten).length ≤ n) :
    (history feed (readAll n ds) t).map Prod.snd =
      ds.inits.tail.flatMap fun p => [[], t.inData ++ p.flatten] := by
  induction ds generalizing t with
  | nil => rfl
  | cons d ds ih =>
      rw [List.flatten_cons, ← List.append_assoc] at hn
      have hd : (t.inData ++ d).length ≤ n := by
        rw [List.length_append] at hn
        omega
      obtain ⟨hout, hopen, hunread, hdata⟩ := feed_readAll h hread hd
      have hrest := ih hopen hunread (by rw [hdata]; exact hn)
      have hcons : (history feed (readAll n (d :: ds)) t).map Prod.snd =
          [] :: (t.inData ++ d) :: (history feed (readAll n ds)
            (feed (.readData n) (t.setIncoming d)).2).map Prod.snd := by
        rw [← hout]
        rfl
      rw [hcons, hrest, hdata]
      -- the beginnings of `d :: ds` are those of `ds` with `d` before them
      cases ds <;> simp [List.flatMap_map, List.append_assoc]

/-- **Requests that are read up accumulate.**  With a limit that is never reached, the
`k`-th read hands out the first `k` requests. -/
theorem outputs_successive (n : ℕ+) (ds : List Bytes) (h : ds.flatten.length ≤ n) :
    (history feed (readAll n ds) new).map Prod.snd =
      ds.inits.tail.flatMap fun p => [[], p.flatten] :=
  outputs_readAll rfl rfl h

/-- Two requests of one byte: the second read hands out both. -/
theorem outputs_successive_two :
    (history feed (readAll 9 [[97], [98]]) new).map Prod.snd = [[], [97], [], [97, 98]] :=
  outputs_successive 9 [[97], [98]] (by decide)

/-! ### Chunks on top of each other -/

/-- The bytes `d` on top of `u`. -/
def overlay (u d : Bytes) : Bytes := d ++ u.drop d.length

theorem getElem?_overlay (u d : Bytes) (i : ℕ) :
    (overlay u d)[i]? = if i < d.length then d[i]? else u[i]? := by
  rw [overlay, List.getElem?_append]
  split
  · rfl
  · rw [List.getElem?_drop]
    congr 1
    omega

/-- Without reads the position stays at the start. -/
theorem after_chunks (ds : List Bytes) :
    (after feed (ds.map .setIncoming) new).pos = 0 ∧
      (after feed (ds.map .setIncoming) new).inData = ds.foldl overlay [] := by
  induction ds using List.reverseRecOn with
  | nil => exact ⟨rfl, rfl⟩
  | append_singleton ds d ih =>
      have hopen := openMode_after (ds.map .setIncoming)
      have hingoing := ingoing_setIncoming hopen d
      rw [List.map_append, after_append, List.foldl_append, ← ih.2]
      generalize after feed (ds.map .setIncoming) new = t at ih hingoing
      change (t.setIncoming d).pos = 0 ∧ (t.setIncoming d).inData = overlay t.inData d
      have hpos : t.ingoing.cursor.pos = 0 := ih.1
      rw [pos, inData, hingoing]
      refine ⟨rfl, ?_⟩
      change (t.ingoing.cursor.write d).data = _
      rw [Cursor.data_write, hpos]
      simp [overlay, inData, Buffer.data]

/-- **Chunks that nobody reads in between.**  At each place the last chunk shows that
reaches it. -/
theorem inData_chunks (ds : List Bytes) (i : ℕ) :
    (after feed (ds.map .setIncoming) new).inData[i]? =
      (ds.reverse.find? fun d => i < d.length).bind (·[i]?) := by
  rw [(after_chunks ds).2]
  induction ds using List.reverseRecOn with
  | nil => rfl
  | append_singleton ds d ih =>
      rw [List.foldl_append, List.foldl_cons, List.foldl_nil, getElem?_overlay, ih,
        List.reverse_append, List.reverse_singleton, List.singleton_append, List.find?_cons]
      by_cases hi : i < d.length <;> simp [hi]

end FrameworkTests.HttpMemoryTransport
