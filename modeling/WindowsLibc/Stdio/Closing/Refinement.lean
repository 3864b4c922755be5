import WindowsLibc.Stdio.Closing.Loops

/-!
# Streams, descriptors and the end of the process

`Refines` is the invariant: every entry of the list of open files is a live stream that `Describes` it, with a
descriptor of its own. Each operation keeps it (`stdioMachine_step`), so over any history the streams do what the
list says (`stdio_refines`). `exit_saves` is what this means for a stream that is still open in the end, and
`freopen_failed_shares` what goes wrong where `freopen` does.
-/

namespace WindowsLibc.Stdio

open WindowsLibc.Lib WindowsLibc.Fcntl

/-! ## The refinement -/

/-- The streams are those of the list. -/
structure Refines (t : StdioState) (a : OpenStreams) : Prop where
  lists : Lists t.streams (a.streams.map OpenStream.stream)
  shows : ∀ e ∈ a.streams, t.fd e.stream = e.fd ∧ Shows t e (Describes · e)
  fds : t.table.binding = a.fds
  wellFormed : WellFormed t.table
  bound : ∀ e ∈ a.streams, a.fds e.fd ≠ none ∧ e.fd ≠ atFdcwd
  distinct : (a.streams.map OpenStream.fd).Nodup
  space : ∀ e ∈ a.streams, e.stream < addressSpace

section
open StdioState
variable {t t' : StdioState} {a : OpenStreams} {p : Nat} {e : OpenStream}

theorem OpenStreams.find_some (h : OpenStreams.find p a.streams = some e) : e ∈ a.streams ∧ e.stream = p := by
  refine ⟨List.mem_of_find?_eq_some h, ?_⟩
  have hp := List.find?_some h
  exact of_decide_eq_true hp

/-- A live stream has an entry. -/
theorem Refines.find (h : Refines t a) (hp : t.streams.file p ≠ none) :
    ∃ e, OpenStreams.find p a.streams = some e ∧ e ∈ a.streams ∧ e.stream = p := by
  obtain ⟨e, he, heq⟩ := List.mem_map.mp ((h.lists.alive p).mpr hp)
  obtain ⟨e', hfind⟩ := Option.isSome_iff_exists.mp
    (List.find?_isSome.mpr ⟨e, he, decide_eq_true heq⟩ : (OpenStreams.find p a.streams).isSome)
  exact ⟨e', hfind, OpenStreams.find_some hfind⟩

/-- Entries are told apart by their streams, and by their descriptors. -/
theorem Refines.eq_of_stream (h : Refines t a) {e' : OpenStream} (he : e ∈ a.streams) (he' : e' ∈ a.streams)
    (heq : e.stream = e'.stream) : e = e' :=
  List.inj_on_of_nodup_map h.lists.nodup he he' heq

theorem Refines.eq_of_fd (h : Refines t a) {e' : OpenStream} (he : e ∈ a.streams) (he' : e' ∈ a.streams)
    (heq : e.fd = e'.fd) : e = e' :=
  List.inj_on_of_nodup_map h.distinct he he' heq

theorem Refines.alive (h : Refines t a) (he : e ∈ a.streams) : t.streams.file e.stream ≠ none :=
  (h.lists.alive e.stream).mp (List.mem_map_of_mem he)

theorem Refines.valid (h : Refines t a) (he : e ∈ a.streams) : validateFd t.table e.fd = true := by
  rw [validateFd_eq h.wellFormed, h.fds]
  exact Option.isSome_iff_ne_none.mpr (h.bound e he).1

theorem without_stream (h : (a.streams.map OpenStream.stream).Nodup) (p : Nat) :
    (OpenStreams.without p a.streams).map OpenStream.stream = (a.streams.map OpenStream.stream).erase p := by
  rw [h.erase_eq_filter, List.filter_map]
  refine congrArg (List.map OpenStream.stream) (List.filter_congr fun e _ => ?_)
  by_cases hp : e.stream = p
  · simp [hp]
  · simp [hp]

theorem change_map {β : Type} {f : OpenStream → OpenStream} {g : OpenStream → β} (hf : ∀ e, g (f e) = g e)
    (p : Nat) (l : List OpenStream) : (OpenStreams.change p f l).map g = l.map g := by
  rw [OpenStreams.change, List.map_map]
  refine List.map_congr_left fun e _ => ?_
  rw [Function.comp_apply]
  split
  · exact hf e
  · rfl

/-- `common_fflush`, on a stream of the list. -/
theorem flush_spec (h : Refines t a) (he : e ∈ a.streams) :
    ∃ t' file, t.flush e.stream = some t' ∧ t'.fd = t.fd ∧ t'.table = t.table ∧
      Lists t'.streams (a.streams.map OpenStream.stream) ∧ t'.streams.file e.stream = some file ∧
      (∃ s, Describes s e ∧ file.stream = (commonFflush s).2) ∧
      ∀ q, q ≠ e.stream → t'.streams.stream q = t.streams.stream q := by
  obtain ⟨-, s, hs, hdescribes⟩ := h.shows e he
  obtain ⟨file, hfile, rfl⟩ := StreamList.file_of_stream hs
  refine ⟨{ t with streams :=
    { t.streams with file := Function.update t.streams.file e.stream (some file.flushed) } }, file.flushed,
    ?_, rfl, rfl, h.lists.store hfile file.flushed rfl, Function.update_self _ _ _,
    ⟨file.stream, hdescribes, rfl⟩, ?_⟩
  · rw [flush, StreamList.modify, hfile]
    rfl
  · intro q hq
    simp only [StreamList.stream, Function.update_of_ne hq]

/-- A stream goes, with its descriptor. -/
theorem Refines.remove (h : Refines t a) (he : e ∈ a.streams) (hlists : Lists t'.streams
      ((a.streams.map OpenStream.stream).erase e.stream))
    (hothers : ∀ q, q ≠ e.stream → t'.streams.stream q = t.streams.stream q) (hfd : t'.fd = t.fd)
    (hfree : t'.table.binding = a.fds.free e.fd) (hw : WellFormed t'.table) :
    Refines t' ⟨OpenStreams.without e.stream a.streams, a.fds.free e.fd⟩ := by
  have hmem {e' : OpenStream} (he' : e' ∈ OpenStreams.without e.stream a.streams) :
      e' ∈ a.streams ∧ e'.stream ≠ e.stream := by
    obtain ⟨hin, hne⟩ := List.mem_filter.mp he'
    exact ⟨hin, of_decide_eq_true hne⟩
  refine ⟨?_, ?_, hfree, hw, ?_, h.distinct.sublist (List.filter_sublist.map _),
    fun e' he' => h.space e' (hmem he').1⟩
  · change Lists _ ((OpenStreams.without e.stream a.streams).map OpenStream.stream)
    rw [without_stream h.lists.nodup]
    exact hlists
  · intro e' he'
    obtain ⟨hin, hne⟩ := hmem he'
    obtain ⟨hfd', s, hs, hdescribes⟩ := h.shows e' hin
    exact ⟨by rw [hfd, hfd'], s, (hothers e'.stream hne).trans hs, hdescribes⟩
  · intro e' he'
    obtain ⟨hin, hne⟩ := hmem he'
    refine ⟨?_, (h.bound e' hin).2⟩
    have hfd' : e'.fd ≠ e.fd := fun heq => hne (congrArg OpenStream.stream (h.eq_of_fd hin he heq))
    change a.fds.free e.fd e'.fd ≠ none
    rw [FdMap.free, Function.update_of_ne hfd']
    exact (h.bound e' hin).1

/-- `delete_stream` and the freeing of the buffer, after the flush. -/
theorem discard_spec (t₁ : StdioState) {file : File} (hlists : Lists t₁.streams (a.streams.map OpenStream.stream))
    (he : e ∈ a.streams) {s : Stream} (hs : Describes s e) (hfile : file.stream = (commonFflush s).2)
    (closed : Closed) :
    ∃ streams, discard e.stream file closed t₁ =
        some ({ t₁ with streams := streams }, ⟨if e.buffered then [e.stream] else [], [closed]⟩) ∧
      Lists streams ((a.streams.map OpenStream.stream).erase e.stream) ∧
      ∀ q, q ≠ e.stream → streams.stream q = t₁.streams.stream q := by
  have halive := (hlists.alive e.stream).mp (List.mem_map_of_mem he)
  obtain ⟨streams, hdelete, hlists'⟩ := deleteStream_lists hlists halive
  refine ⟨streams, ?_, hlists', ?_⟩
  · rw [StdioState.discard, hdelete, Option.map_some, hfile, flushed_bufferAllocated, hs.bufferAllocated]
  · intro q hq
    rw [deleteStream_stream hdelete q, if_neg hq]

/-- `common_fclose` closes one stream. -/
theorem commonFclose_refines (h : Refines t a) (he : e ∈ a.streams) :
    ∃ t', StdioState.commonFclose e.stream t = some (t', e.released) ∧
      Refines t' ⟨OpenStreams.without e.stream a.streams, a.fds.free e.fd⟩ := by
  obtain ⟨t₁, file, hflush, hfd₁, htable₁, hlists₁, hfile, ⟨s, hs, hflushed⟩, hothers₁⟩ := flush_spec h he
  obtain ⟨streams, hdiscard, hlists₂, hothers₂⟩ := discard_spec t₁ hlists₁ he hs hflushed
    ⟨t₁.fd e.stream, file.stream.file.content⟩
  have hvalid := h.valid he
  obtain ⟨table, hclose, hfree, -, hw⟩ := closeFd_spec h.wellFormed hvalid
  refine ⟨{ t₁ with streams := streams, table := table }, ?_, ?_⟩
  · have hcontent : file.stream.file.content = e.file.content := by
      rw [hflushed]
      exact hs.closed
    have hfd : t₁.fd e.stream = e.fd := by rw [hfd₁, (h.shows e he).1]
    rw [StdioState.commonFclose, hflush]
    simp only [Option.bind_eq_bind, Option.bind_some, hfile, hdiscard]
    rw [wlibcClose, hfd, if_neg (h.bound e he).2, htable₁, if_neg (by simp [hvalid]), hclose, hcontent]
    rfl
  · refine h.remove he hlists₂ (fun q hq => (hothers₂ q hq).trans (hothers₁ q hq)) hfd₁ ?_ hw
    rw [hfree, h.fds]

end

section
open StdioState
variable {t t' : StdioState} {a : OpenStreams} {e : OpenStream} {m : FdMap}

/-- The table changes, and the descriptors of the streams stay bound. -/
theorem Refines.setTable (h : Refines t a) {table : FdTable} (hfds : table.binding = m) (hw : WellFormed table)
    (hbound : ∀ e ∈ a.streams, m e.fd ≠ none) : Refines { t with table := table } ⟨a.streams, m⟩ :=
  ⟨h.lists, h.shows, hfds, hw, fun e he => ⟨hbound e he, (h.bound e he).2⟩, h.distinct, h.space⟩

/-- A new stream, on a descriptor of its own. -/
theorem Refines.add (h : Refines t a) {block : Option Nat} (hblock : FreeBlock t block) {fd : Int}
    {stream : Stream} {file : OpenFile} {bare : Bool} (hs : ∀ p, Describes stream ⟨p, fd, file, bare, false⟩)
    (hbound : a.fds fd ≠ none) (hcwd : fd ≠ atFdcwd) (hnew : ∀ e ∈ a.streams, e.fd ≠ fd) :
    ∃ t', t.create block fd stream = some t' ∧
      Refines t' ⟨OpenStreams.add block fd file bare a.streams, a.fds⟩ := by
  cases block with
  | none => exact ⟨t, rfl, h⟩
  | some p =>
    obtain ⟨hfree, hspace⟩ := hblock p rfl
    obtain ⟨streams, hcreate, hlists⟩ := createFile_lists h.lists hfree stream
    have hstreams := createFile_stream hcreate
    have hne {e : OpenStream} (he : e ∈ a.streams) : e.stream ≠ p := fun heq => h.alive he (heq ▸ hfree)
    refine ⟨{ t with streams := streams, fd := Function.update t.fd p fd }, ?_, ?_⟩
    · rw [StdioState.create, hcreate]
      rfl
    refine ⟨hlists, ?_, h.fds, h.wellFormed, ?_, ?_, ?_⟩
    · intro e he
      rcases List.mem_cons.mp he with rfl | he
      · exact ⟨Function.update_self _ _ _, stream, by rw [hstreams p, if_pos rfl], hs p⟩
      · obtain ⟨hfd, s, hstream, hdescribes⟩ := h.shows e he
        refine ⟨?_, s, ?_, hdescribes⟩
        · rw [← hfd]
          exact Function.update_of_ne (hne he) _ _
        · rw [hstreams e.stream, if_neg (hne he), hstream]
    · intro e he
      rcases List.mem_cons.mp he with rfl | he
      · exact ⟨hbound, hcwd⟩
      · exact h.bound e he
    · refine List.nodup_cons.mpr ⟨?_, h.distinct⟩
      intro hmem
      obtain ⟨e, he, heq⟩ := List.mem_map.mp hmem
      exact hnew e he heq
    · intro e he
      rcases List.mem_cons.mp he with rfl | he
      · exact hspace
      · exact h.space e he

/-- One stream changes, perhaps with its descriptor. -/
theorem Refines.change (h : Refines t a) (he : e ∈ a.streams) {f : OpenStream → OpenStream}
    (hf : ∀ e, (f e).stream = e.stream) (hlists : Lists t'.streams (a.streams.map OpenStream.stream))
    (hself : t'.fd e.stream = (f e).fd ∧ Shows t' e (Describes · (f e)))
    (hothers : ∀ q, q ≠ e.stream → t'.fd q = t.fd q ∧ t'.streams.stream q = t.streams.stream q)
    (hfds : t'.table.binding = m) (hw : WellFormed t'.table)
    (hbound : m (f e).fd ≠ none ∧ (f e).fd ≠ atFdcwd)
    (hrest : ∀ x ∈ a.streams, x.stream ≠ e.stream → m x.fd ≠ none ∧ x.fd ≠ (f e).fd) :
    Refines t' ⟨OpenStreams.change e.stream f a.streams, m⟩ := by
  -- an entry of the new list is the changed one, or another one
  have hcases {x : OpenStream} (hx : x ∈ OpenStreams.change e.stream f a.streams) :
      x = f e ∨ (x ∈ a.streams ∧ x.stream ≠ e.stream) := by
    obtain ⟨y, hy, rfl⟩ := List.mem_map.mp hx
    by_cases heq : y.stream = e.stream
    · rw [if_pos heq, h.eq_of_stream hy he heq]
      exact Or.inl rfl
    · rw [if_neg heq]
      exact Or.inr ⟨hy, heq⟩
  refine ⟨?_, ?_, hfds, hw, ?_, ?_, ?_⟩
  · change Lists _ ((OpenStreams.change e.stream f a.streams).map OpenStream.stream)
    rw [change_map hf]
    exact hlists
  · intro x hx
    rcases hcases hx with rfl | ⟨hx, hne⟩
    · rw [Shows, hf e]
      exact hself
    · obtain ⟨hfd, s, hs, hdescribes⟩ := h.shows x hx
      obtain ⟨hfd', hstream'⟩ := hothers x.stream hne
      exact ⟨hfd'.trans hfd, s, hstream'.trans hs, hdescribes⟩
  · intro x hx
    rcases hcases hx with rfl | ⟨hx, hne⟩
    · exact hbound
    · exact ⟨(hrest x hx hne).1, (h.bound x hx).2⟩
  · change ((OpenStreams.change e.stream f a.streams).map OpenStream.fd).Nodup
    rw [OpenStreams.change, List.map_map]
    refine (List.Nodup.of_map _ h.lists.nodup).map_on ?_
    intro x hx y hy heq
    simp only [Function.comp_apply] at heq
    by_cases hxe : x.stream = e.stream
    · by_cases hye : y.stream = e.stream
      · exact h.eq_of_stream hx hy (hxe.trans hye.symm)
      · rw [if_pos hxe, if_neg hye, h.eq_of_stream hx he hxe] at heq
        exact absurd heq.symm (hrest y hy hye).2
    · by_cases hye : y.stream = e.stream
      · rw [if_neg hxe, if_pos hye, h.eq_of_stream hy he hye] at heq
        exact absurd heq (hrest x hx hxe).2
      · rw [if_neg hxe, if_neg hye] at heq
        exact h.eq_of_fd hx hy heq
  · intro x hx
    rcases hcases hx with rfl | ⟨hx, -⟩
    · rw [hf e]
      exact h.space e he
    · exact h.space x hx

/-- With no data, nothing changes. -/
theorem OpenStreams.change_of_isNothing {o : Output} (hnone : o.isNothing = true) (p : Nat)
    (l : List OpenStream) : OpenStreams.change p (fun e => e.write o) l = l := by
  have hbytes : o.bytes = [] := by
    cases o with
    | fwrite b => exact List.isEmpty_iff.mp hnone
    | fputc ch => cases hnone
    | fflush => cases hnone
  have hsame (e : OpenStream) : e.write o = e := by
    rw [OpenStream.write, hbytes, OpenFile.put_nil, List.isEmpty_nil, Bool.not_true, Bool.and_false, Bool.or_false]
  rw [OpenStreams.change, List.map_congr_left (g := id), List.map_id]
  intro e _
  rw [hsame, ite_self]
  rfl

/-- An output call changes what its stream will have in its file. -/
theorem output_refines (h : Refines t a) (heap : Nat → FdInfo) (info : FdInfo) {p : Nat} {o : Output}
    (hop : (StdioOp.output p o).Permitted t) :
    ∃ t', (stdioMachine heap info).step t (.output p o) = some (t', .nothing) ∧
      Refines t' ⟨OpenStreams.change p (fun e => e.write o) a.streams, a.fds⟩ := by
  obtain ⟨file, hfile, hwrite⟩ := hop
  obtain ⟨e, -, he, rfl⟩ := h.find (Option.ne_none_iff_exists'.mpr ⟨file, hfile⟩)
  by_cases hnone : o.isNothing = true
  · refine ⟨t, ?_, ?_⟩
    · simp only [stdioMachine, hnone, if_true]
    · rw [OpenStreams.change_of_isNothing hnone]
      exact h
  have hsome := eq_false_of_ne_true hnone
  obtain ⟨hfd, s, hs, hdescribes⟩ := h.shows e he
  obtain ⟨file', hfile', rfl⟩ := StreamList.file_of_stream hs
  cases hfile.symm.trans hfile'
  obtain ⟨s', n, hstep, hdescribes'⟩ := hdescribes.write hsome hwrite
  refine ⟨{ t with streams := { t.streams with
    file := Function.update t.streams.file e.stream (some { file with stream := s' }) } }, ?_, ?_⟩
  · simp only [stdioMachine, hsome, Bool.false_eq_true, if_false, hfile, Option.bind_eq_bind, Option.bind_some,
      hstep, StreamList.modify, Option.map_some]
    rfl
  · refine h.change he (fun _ => rfl) (h.lists.store hfile { file with stream := s' } rfl)
      ⟨hfd, s', ?_, hdescribes'⟩ ?_ h.fds h.wellFormed (h.bound e he) ?_
    · simp only [StreamList.stream, Function.update_self, Option.map_some]
    · intro q hq
      refine ⟨rfl, ?_⟩
      simp only [StreamList.stream, Function.update_of_ne hq]
    · intro x hx hne
      exact ⟨(h.bound x hx).1, fun heq => hne (congrArg OpenStream.stream (h.eq_of_fd hx he heq))⟩

/-- `wlibc_freopen`, when the reopening succeeds or there is a name. -/
theorem freopen_refines (h : Refines t a) (heap : Nat → FdInfo) (he : e ∈ a.streams) {named : Bool}
    {r : Option Reopened} (hop : (StdioOp.freopen e.stream named r).Permitted t) :
    ∃ t', t.freopen heap e.stream named r = some (t', (a.step (.freopen e.stream named r)).2) ∧
      Refines t' (a.step (.freopen e.stream named r)).1 := by
  obtain ⟨halive, hnamed, hopened⟩ := hop
  obtain ⟨t₁, file, hflush, hfd₁, htable₁, hlists₁, hfile, ⟨s, hs, hflushed⟩, hothers₁⟩ := flush_spec h he
  obtain ⟨e', hfind, he', hstream⟩ := h.find halive
  cases h.eq_of_stream he' he hstream
  have hcontent : file.stream.file.content = e.file.content := by
    rw [hflushed]
    exact hs.closed
  have hfd : t₁.fd e.stream = e.fd := by rw [hfd₁, (h.shows e he).1]
  obtain ⟨table, hclose, hfree, -, hw⟩ := closeFd_spec h.wellFormed (h.valid he)
  rw [h.fds] at hfree
  rw [StdioState.freopen, hflush]
  simp only [OpenStreams.step, hfind, Option.bind_eq_bind, Option.bind_some, hfile, hfd, htable₁, hclose,
    hcontent]
  cases r with
  | none =>
    obtain ⟨streams, hdiscard, hlists₂, hothers₂⟩ := discard_spec { t₁ with table := table } hlists₁
      he hs hflushed ⟨e.fd, e.file.content⟩
    refine ⟨{ t₁ with streams := streams, table := table }, ?_, ?_⟩
    · rw [hnamed rfl, if_pos rfl, if_pos rfl, hdiscard]
      rfl
    · rw [hnamed rfl, if_pos rfl]
      exact h.remove he hlists₂ (fun q hq => (hothers₂ q hq).trans (hothers₁ q hq)) hfd₁ hfree hw
  | some r =>
    obtain ⟨hfresh, hgranted⟩ := hopened r rfl
    have hfresh₁ : Fresh table.binding r.handle := by
      rw [hfree, ← h.fds]
      exact hfresh.free e.fd
    obtain ⟨table', hregister, hbind, hw'⟩ := registerToFdTable_spec hw heap hfresh₁ .file r.flags
    have hlowest := binding_firstFree table
    have hlt := lowestFree_lt hw
    rw [firstFree_eq, hfree] at hlowest
    rw [hfree] at hregister hbind hlt
    obtain ⟨fd, hfd'⟩ : ∃ fd, fd = (a.fds.free e.fd).lowestFree := ⟨_, rfl⟩
    rw [← hfd'] at hregister hbind hlowest hlt ⊢
    refine ⟨⟨{ t₁.streams with
      file := Function.update t₁.streams.file e.stream (some { file with stream := reset file.stream r }) },
      Function.update t₁.fd e.stream fd, table'⟩, ?_, ?_⟩
    · simp only [hregister, Option.bind_some, StreamList.modify, hfile, Option.map_some]
      rfl
    · refine h.change he (fun _ => rfl)
        (hlists₁.store hfile { file with stream := reset file.stream r } rfl)
        ⟨Function.update_self _ _ _, reset file.stream r, ?_, ?_⟩ ?_ hbind hw' ?_ ?_
      · simp only [StreamList.stream, Function.update_self, Option.map_some]
      · rw [hflushed]
        exact hs.reset hgranted fd
      · intro q hq
        refine ⟨?_, ?_⟩
        · rw [← hfd₁]
          exact Function.update_of_ne hq _ _
        · rw [← hothers₁ q hq]
          simp only [StreamList.stream, Function.update_of_ne hq]
      · refine ⟨?_, ?_⟩
        · simp only [FdMap.bind, Function.update_self]
          exact Option.some_ne_none _
        · simp only [atFdcwd]
          omega
      · intro x hx hne
        have hfdx : x.fd ≠ e.fd := fun heq => hne (congrArg OpenStream.stream (h.eq_of_fd hx he heq))
        have hstill : a.fds.free e.fd x.fd ≠ none := by
          rw [FdMap.free, Function.update_of_ne hfdx]
          exact (h.bound x hx).1
        have hnew : x.fd ≠ fd := fun heq => hstill (heq ▸ hlowest)
        refine ⟨?_, hnew⟩
        rw [FdMap.bind, Function.update_of_ne hnew]
        exact hstill

/-- There are fewer streams than addresses. -/
theorem Refines.length_le (h : Refines t a) : a.streams.length ≤ addressSpace := by
  have hsub : a.streams.map OpenStream.stream ⊆ List.range addressSpace := by
    intro p hp
    obtain ⟨e, he, rfl⟩ := List.mem_map.mp hp
    exact List.mem_range.mpr (h.space e he)
  have hle := (List.subperm_of_subset h.lists.nodup hsub).length_le
  rwa [List.length_map, List.length_range] at hle

/-- `close_all_streams` closes every stream. -/
theorem closeAllStreams_refines (h : Refines t a) :
    ∃ t', t.closeAllStreams addressSpace = some (t', (a.step .fcloseall).2) ∧
      Refines t' (a.step .fcloseall).1 := by
  have hvisits : Visits t.streams.links t.streams.head (a.streams.map OpenStream.stream) := by
    rw [h.lists.head]
    exact h.lists.linked.visits
  obtain ⟨t₁, hflush, hfd₁, htable₁, hlinks₁, hstreams₁⟩ :=
    flushLoop_spec hvisits h.lists.nodup (fun e he => (h.shows e he).2) h.length_le
  have hes : ∀ e ∈ a.streams, t₁.fd e.stream = e.fd ∧ Shows t₁ e fun s => s.file.content = e.file.content := by
    intro e he
    obtain ⟨hfd, s, hs, hdescribes⟩ := h.shows e he
    refine ⟨by rw [hfd₁, hfd], (commonFflush s).2, ?_, hdescribes.closed⟩
    rw [hstreams₁, if_pos (List.mem_map_of_mem he), hs, Option.map_some]
  obtain ⟨t₂, hclose, hhead, hw, hfree, hfiles⟩ := closeLoop_spec (hvisits.congr hlinks₁) h.lists.nodup hes
    (htable₁ ▸ h.wellFormed) (fun e he => by rw [htable₁, h.fds]; exact (h.bound e he).1) h.distinct h.length_le
  have hgone (q : Nat) : t₂.streams.file q = none := by
    rw [hfiles q]
    by_cases hq : q ∈ a.streams.map OpenStream.stream
    · rw [if_pos hq]
    · rw [if_neg hq, ← StreamList.stream_eq_none, hstreams₁, if_neg hq, StreamList.stream_eq_none]
      exact not_not.mp (mt (h.lists.alive q).mpr hq)
  refine ⟨t₂, ?_, ?_⟩
  · rw [StdioState.closeAllStreams, hflush]
    simp only [Option.bind_eq_bind, Option.bind_some, hclose]
    rfl
  · refine ⟨⟨List.nodup_nil, ?_, hhead, trivial⟩, fun _ he => absurd he List.not_mem_nil, ?_, hw,
      fun _ he => absurd he List.not_mem_nil, List.nodup_nil, fun _ he => absurd he List.not_mem_nil⟩
    · intro q
      exact ⟨fun hq => absurd hq List.not_mem_nil, fun hq => absurd (hgone q) hq⟩
    · rw [hfree, htable₁, h.fds]
      rfl

/-- **One operation.** -/
theorem stdioMachine_step (h : Refines t a) (heap : Nat → FdInfo) (info : FdInfo) {op : StdioOp}
    (hop : op.Permitted t) :
    ∃ t', (stdioMachine heap info).step t op = some (t', (a.step op).2) ∧ Refines t' (a.step op).1 := by
  cases op with
  | fopen block handle flags access file g =>
    obtain ⟨hblock, hfresh, hcreatable⟩ := hop
    obtain ⟨table, hregister, hbind, hw⟩ := registerToFdTable_spec h.wellFormed heap hfresh .file flags
    have hlowest := binding_firstFree t.table
    have hlt := lowestFree_lt h.wellFormed
    rw [firstFree_eq, h.fds] at hlowest
    rw [h.fds] at hregister hbind hlt
    have hnew : ∀ e ∈ a.streams, e.fd ≠ a.fds.lowestFree := fun e he heq => (h.bound e he).1 (heq ▸ hlowest)
    have h₁ := h.setTable hbind hw fun e he => by
      rw [FdMap.bind, Function.update_of_ne (hnew e he)]
      exact (h.bound e he).1
    obtain ⟨t', hcreate, href⟩ := h₁.add hblock
      (fun p => createStream_describes hcreatable p a.fds.lowestFree)
      (by
        simp only [FdMap.bind, Function.update_self]
        exact Option.some_ne_none _)
      (by
        simp only [atFdcwd]
        omega) hnew
    refine ⟨t', ?_, href⟩
    simp only [stdioMachine, hregister, Option.bind_eq_bind, Option.bind_some, hcreate]
    rfl
  | attach block fd bufMode bufSize file g =>
    obtain ⟨hblock, hcreatable, hbound, hcwd, hfds⟩ := hop
    have hnew : ∀ e ∈ a.streams, e.fd ≠ fd := by
      intro e he
      rw [← (h.shows e he).1]
      exact hfds e.stream (h.alive he)
    obtain ⟨t', hcreate, href⟩ := h.add hblock (fun p => createStream_describes hcreatable p fd)
      (h.fds ▸ hbound) hcwd hnew
    refine ⟨t', ?_, href⟩
    simp only [stdioMachine, hcreate, Option.map_some]
    rfl
  | output p o => exact output_refines h heap info hop
  | freopen p named r =>
    obtain ⟨e, -, he, rfl⟩ := h.find hop.1
    exact freopen_refines h heap he hop
  | fclose p =>
    obtain ⟨e, hfind, he, rfl⟩ := h.find hop
    obtain ⟨t', hclose, href⟩ := commonFclose_refines h he
    simp only [OpenStreams.step, hfind]
    exact ⟨t', hclose, href⟩
  | fcloseall => exact closeAllStreams_refines h
  | call c =>
    obtain ⟨hallowed, hsame⟩ := hop
    obtain ⟨table, m, r, hstep, hmap, hbinding, hw⟩ := step_represents heap info t.table a.fds c
      ⟨h.fds, h.wellFormed⟩ hallowed
    obtain rfl : m = (a.fds.step c).1 := (congrArg Prod.fst (Option.some.inj hmap)).symm
    refine ⟨{ t with table := table }, ?_, h.setTable hbinding hw ?_⟩
    · simp only [stdioMachine, hstep, Option.map_some]
      rfl
    · intro e he
      rw [h.fds] at hsame
      rw [← (h.shows e he).1, hsame e.stream (h.alive he), (h.shows e he).1]
      exact (h.bound e he).1

end

/-! ## Histories -/

/-- **Streams and descriptors.** Over any history, the streams do what the list of open files says, and nothing
faults: whatever closes a file, `fclose`, `freopen` or the end of the process, the file has all that was written
to it, its descriptor is closed once, and its buffer is freed once if there is one. -/
theorem stdio_refines (heap : Nat → FdInfo) (info : FdInfo) (fd : Nat → Int) (table : FdTable)
    (hw : WellFormed table) (ops : List StdioOp)
    (h : (stdioMachine heap info).Along (fun t op => op.Permitted t) ⟨noStreams, fd, table⟩ ops) :
    ∃ t a os, (stdioMachine heap info).run ⟨noStreams, fd, table⟩ ops = some (t, os) ∧
      OpenStreams.machine.run ⟨[], table.binding⟩ ops = some (a, os) ∧ Refines t a := by
  have hstart : Refines ⟨noStreams, fd, table⟩ ⟨[], table.binding⟩ :=
    ⟨noStreams_lists, fun _ he => absurd he List.not_mem_nil, rfl, hw, fun _ he => absurd he List.not_mem_nil,
      List.nodup_nil, fun _ he => absurd he List.not_mem_nil⟩
  refine Machine.run_sim (N := OpenStreams.machine) (R := Refines) ?_ ops hstart h
  intro t a op hR hP
  obtain ⟨t', hstep, hR'⟩ := stdioMachine_step hR heap info hP
  exact ⟨t', (a.step op).1, (a.step op).2, hstep, rfl, hR'⟩

/-- What is written to one stream. -/
def writtenTo (p : Nat) (ops : List StdioOp) : List Byte :=
  ops.flatMap fun op => match op with
    | .output q o => if q = p then o.bytes else []
    | _ => []

/-- The operation closes what the stream at `p` has open. -/
def StdioOp.Closes (p : Nat) : StdioOp → Prop
  | .fclose q | .freopen q _ _ => q = p
  | .fcloseall => True
  | _ => False

section
variable {a : OpenStreams} {e : OpenStream} {p : Nat}

theorem writtenTo_cons (p : Nat) (op : StdioOp) (ops : List StdioOp) :
    writtenTo p (op :: ops) = writtenTo p [op] ++ writtenTo p ops := by
  rw [writtenTo, List.flatMap_cons, writtenTo, List.flatMap_singleton]
  rfl

/-- An entry of which `p` is the descriptor's old and new stream. -/
theorem OpenStreams.mem_without (he : e ∈ a.streams) (hne : e.stream ≠ p) : e ∈ without p a.streams :=
  List.mem_filter.mpr ⟨he, decide_eq_true hne⟩

theorem OpenStreams.mem_change_of_ne (he : e ∈ a.streams) (hne : e.stream ≠ p) (f : OpenStream → OpenStream) :
    e ∈ change p f a.streams :=
  List.mem_map.mpr ⟨e, he, if_neg hne⟩

/-- The entry has become `e'`, which has `bytes` more to leave in its file. -/
structure OpenStream.Grows (e : OpenStream) (bytes : List Byte) (e' : OpenStream) : Prop where
  stream : e'.stream = e.stream
  fd : e'.fd = e.fd
  file : e'.file = e.file.put bytes

theorem OpenStream.Grows.refl (e : OpenStream) : e.Grows [] e :=
  ⟨rfl, rfl, (OpenFile.put_nil e.file).symm⟩

/-- What is not closed stays open, with what is written to it. -/
theorem OpenStreams.step_keeps (he : e ∈ a.streams) {op : StdioOp} (hkeep : ¬ op.Closes e.stream) :
    ∃ e' ∈ (a.step op).1.streams, e.Grows (writtenTo e.stream [op]) e' := by
  cases op with
  | fopen block handle flags access file g =>
    refine ⟨e, ?_, .refl e⟩
    cases block with
    | none => exact he
    | some p => exact List.mem_cons_of_mem _ he
  | attach block fd bufMode bufSize file g =>
    refine ⟨e, ?_, .refl e⟩
    cases block with
    | none => exact he
    | some p => exact List.mem_cons_of_mem _ he
  | output q o =>
    have hwritten : writtenTo e.stream [.output q o] = if q = e.stream then o.bytes else [] :=
      List.append_nil _
    rw [hwritten]
    by_cases hq : e.stream = q
    · refine ⟨e.write o, List.mem_map.mpr ⟨e, he, if_pos hq⟩, rfl, rfl, ?_⟩
      rw [if_pos hq.symm]
      rfl
    · refine ⟨e, mem_change_of_ne he hq _, rfl, rfl, ?_⟩
      rw [if_neg (Ne.symm hq), OpenFile.put_nil]
  | freopen q named r =>
    have hne : e.stream ≠ q := Ne.symm hkeep
    refine ⟨e, ?_, .refl e⟩
    rw [step]
    split
    · exact he
    · cases r with
      | none =>
        cases named with
        | true => exact mem_without he hne
        | false => exact he
      | some r => exact mem_change_of_ne he hne _
  | fclose q =>
    refine ⟨e, ?_, .refl e⟩
    rw [step]
    split
    · exact he
    · exact mem_without he (Ne.symm hkeep)
  | fcloseall => exact absurd trivial hkeep
  | call c => exact ⟨e, he, .refl e⟩

theorem OpenStreams.machine_step (a : OpenStreams) (op : StdioOp) :
    machine.step a op = some ((a.step op).1, (a.step op).2) := rfl

theorem OpenStreams.run_keeps {ops : List StdioOp} (he : e ∈ a.streams) (hkeep : ∀ op ∈ ops, ¬ op.Closes e.stream) :
    ∃ a' os e', machine.run a ops = some (a', os) ∧ e' ∈ a'.streams ∧ e.Grows (writtenTo e.stream ops) e' := by
  induction ops generalizing a e with
  | nil => exact ⟨a, [], e, rfl, he, .refl e⟩
  | cons op ops ih =>
    obtain ⟨e₁, he₁, h₁⟩ := step_keeps he (hkeep op List.mem_cons_self)
    obtain ⟨a', os, e', hrun, he', h'⟩ := ih he₁ fun op' hop' => by
      rw [h₁.stream]
      exact hkeep op' (List.mem_cons_of_mem op hop')
    refine ⟨a', (a.step op).2 :: os, e', ?_, he', h'.stream.trans h₁.stream, h'.fd.trans h₁.fd, ?_⟩
    · rw [Machine.run_cons (machine_step a op), hrun]
      rfl
    · rw [h'.file, h₁.file, h₁.stream, writtenTo_cons e.stream op ops, OpenFile.put_put]

theorem OpenStreams.freeAll_apply (l : List OpenStream) (m : FdMap) (d : Int) :
    freeAll l m d = if d ∈ l.map OpenStream.fd then none else m d := by
  induction l generalizing m with
  | nil => rfl
  | cons e l ih =>
    change freeAll l (m.free e.fd) d = _
    rw [ih, FdMap.free, List.map_cons]
    by_cases hd : d = e.fd
    · subst hd
      simp
    · simp [hd]

end

/-- **The end of the process.** What has been written to a stream that nothing has closed is in its file after
`close_all_streams`; every stream is freed, and the descriptors of the streams are closed, each once, and no
others. -/
theorem exit_saves (heap : Nat → FdInfo) (info : FdInfo) (fd : Nat → Int) (table : FdTable)
    (hw : WellFormed table) (before after : List StdioOp) {p : Nat} {handle : UInt64} {flags : UInt32}
    {access : Access} {file : OpenFile} {g : Option (Nat → Byte)}
    (h : (stdioMachine heap info).Along (fun t op => op.Permitted t) ⟨noStreams, fd, table⟩
      (before ++ .fopen (some p) handle flags access file g :: after))
    (hopen : ∀ op ∈ after, ¬ op.Closes p) :
    ∃ t os t' released d, (stdioMachine heap info).run ⟨noStreams, fd, table⟩
        (before ++ .fopen (some p) handle flags access file g :: after) = some (t, os) ∧
      t.closeAllStreams addressSpace = some (t', released) ∧
      t.fd p = d ∧ ⟨d, (file.put (writtenTo p after)).content⟩ ∈ released.closed ∧
      (released.closed.map Closed.fd).Nodup ∧
      (∀ d, t'.table.binding d = if d ∈ released.closed.map Closed.fd then none else t.table.binding d) ∧
      ∀ q, t'.streams.file q = none := by
  obtain ⟨t, a, os, hrun, hmap, href⟩ := stdio_refines heap info fd table hw _ h
  -- the list has the stream, from when it is opened on
  obtain ⟨a₁, os₁, hbefore⟩ : ∃ a₁ os₁, OpenStreams.machine.run ⟨[], table.binding⟩ before = some (a₁, os₁) := by
    obtain ⟨a₁, os₁, hbefore, -⟩ := Machine.run_invariant (M := OpenStreams.machine) (I := fun _ => True)
      (P := fun _ _ => True) (fun a op _ _ => ⟨(a.step op).1, (a.step op).2, rfl, trivial⟩) before trivial
      (Machine.along_of_forall (fun _ _ => trivial) before _)
    exact ⟨a₁, os₁, hbefore⟩
  rw [Machine.run_append hbefore, Machine.run_cons (OpenStreams.machine_step a₁ _)] at hmap
  have he₁ : (⟨p, a₁.fds.lowestFree, file, false, false⟩ : OpenStream) ∈
      (a₁.step (.fopen (some p) handle flags access file g)).1.streams := List.mem_cons_self
  obtain ⟨a', os', e, hafter, he, hgrows⟩ := OpenStreams.run_keeps he₁ hopen
  rw [hafter] at hmap
  cases hmap
  obtain ⟨t', hclose, href'⟩ := closeAllStreams_refines href
  have hfds : (a'.streams.map OpenStream.closed).map Closed.fd = a'.streams.map OpenStream.fd := by
    rw [List.map_map]
    rfl
  have hshows := (href.shows e he).1
  rw [hgrows.stream] at hshows
  refine ⟨t, _, t', _, e.fd, hrun, hclose, hshows, ?_, ?_, ?_, ?_⟩
  · refine List.mem_map.mpr ⟨e, he, ?_⟩
    rw [OpenStream.closed, hgrows.file]
  · exact hfds ▸ href.distinct
  · intro d
    rw [href'.fds, href.fds]
    change OpenStreams.freeAll a'.streams a'.fds d =
      if d ∈ (a'.streams.map OpenStream.closed).map Closed.fd then _ else _
    rw [hfds, OpenStreams.freeAll_apply]
  · intro q
    exact not_not.mp (mt (href'.lists.alive q).mpr List.not_mem_nil)

/-- What the heap has at the place of a new entry, and in a local variable. -/
def noInfo : FdInfo := ⟨0, .invalid, 0, 0⟩

/-- A file of one byte, opened for appending at the address 16, and a byte written to it. -/
def openedOnce : List StdioOp :=
  [.fopen (some 16) 4 0 .wronly ⟨[104], 0, true, []⟩ (some fun _ => 0), .output 16 (.fputc 97)]

theorem along_openedOnce :
    (stdioMachine (fun _ => noInfo) noInfo).Along (fun t op => op.Permitted t)
      ⟨noStreams, fun _ => 0, emptyTable⟩ (openedOnce ++ [.fclose 16]) := by
  have hcreatable : Creatable ⟨[104], 0, true, []⟩ (getBufMode .wronly) 512 (some fun _ => 0) :=
    ⟨rfl, fun _ => ⟨rfl, by decide, rfl⟩, fun _ => rfl⟩
  refine ⟨⟨?_, fresh_of_entries (by decide) (by decide), hcreatable⟩, ?_⟩
  · rintro p ⟨rfl⟩
    exact ⟨rfl, by decide⟩
  · rintro t o ⟨⟩
    refine ⟨⟨_, rfl, fun _ => ⟨rfl, fun _ => Or.inr (Or.inl rfl)⟩⟩, ?_⟩
    rintro t o ⟨⟩
    exact ⟨Option.some_ne_none _, fun _ _ _ => trivial⟩

theorem stdio_refines_openedOnce :
    ∃ t a os, (stdioMachine (fun _ => noInfo) noInfo).run ⟨noStreams, fun _ => 0, emptyTable⟩
        (openedOnce ++ [.fclose 16]) = some (t, os) ∧
      OpenStreams.machine.run ⟨[], emptyTable.binding⟩ (openedOnce ++ [.fclose 16]) = some (a, os) ∧
      Refines t a :=
  stdio_refines _ _ _ _ wellFormed_emptyTable _ along_openedOnce

theorem exit_saves_openedOnce :
    ∃ t os t' released d, (stdioMachine (fun _ => noInfo) noInfo).run ⟨noStreams, fun _ => 0, emptyTable⟩
        openedOnce = some (t, os) ∧
      t.closeAllStreams addressSpace = some (t', released) ∧
      t.fd 16 = d ∧ ⟨d, [104, 97]⟩ ∈ released.closed := by
  obtain ⟨t, os, t', released, d, hrun, hclose, hfd, hmem, -⟩ :=
    exit_saves (fun _ => noInfo) noInfo (fun _ => 0) emptyTable wellFormed_emptyTable [] [.output 16 (.fputc 97)]
      (along_openedOnce.take 2) (by
        intro op hop
        cases List.mem_singleton.mp hop
        exact id)
  exact ⟨t, os, t', released, d, hrun, hclose, hfd, hmem⟩

/-! ## A reopening that fails -/

/-- **`reopen_same_file_fail`.** When the same file cannot be reopened, the stream stays in the list with a
descriptor that is free, and the next call that takes a descriptor can get this one: after any history,
`close_all_streams` then closes what is not a stream's. -/
theorem freopen_failed_shares (heap : Nat → FdInfo) (info : FdInfo) (fd : Nat → Int) (table : FdTable)
    (hw : WellFormed table) (ops : List StdioOp)
    (h : (stdioMachine heap info).Along (fun t op => op.Permitted t) ⟨noStreams, fd, table⟩ ops)
    {t : StdioState} {os : List Released}
    (hrun : (stdioMachine heap info).run ⟨noStreams, fd, table⟩ ops = some (t, os)) (p : Nat)
    (hlive : t.streams.file p ≠ none) (handle : UInt64) (hfresh : Fresh t.table.binding handle)
    (hlowest : ∀ d, 0 ≤ d → d < t.fd p → t.table.binding d ≠ none) (type : HandleType) (flags : UInt32) :
    ∃ t₁ t₂ os₁ os₂, (stdioMachine heap info).run t
        [.freopen p false none, .call (.register handle type flags)] = some (t₁, os₁) ∧
      t₁.table.binding (t.fd p) = some ⟨handle, type, flags⟩ ∧
      (stdioMachine heap info).run t₁ [.fcloseall] = some (t₂, os₂) ∧ t₂.table.binding (t.fd p) = none := by
  obtain ⟨t', a, os', hrun', -, href⟩ := stdio_refines heap info fd table hw ops h
  cases hrun.symm.trans hrun'
  obtain ⟨e, -, he, rfl⟩ := href.find hlive
  have hfd := (href.shows e he).1
  rw [hfd] at hlowest ⊢
  -- the stream is flushed, and its descriptor closed
  obtain ⟨t₁, file, hflush, hfd₁, htable₁, hlists₁, hfile, ⟨s, hs, hflushed⟩, hothers₁⟩ := flush_spec href he
  obtain ⟨table', hclose, hfree, -, hw'⟩ := closeFd_spec href.wellFormed (href.valid he)
  have hfreopen : (stdioMachine heap info).step t (.freopen e.stream false none) =
      some ({ t₁ with table := table' }, ⟨[], [⟨e.fd, file.stream.file.content⟩]⟩) := by
    change t.freopen heap e.stream false none = _
    rw [StdioState.freopen, hflush]
    simp only [Option.bind_eq_bind, Option.bind_some, hfile, hfd₁, hfd, htable₁, hclose]
    rfl
  have href₁ : Refines t₁ ⟨OpenStreams.change e.stream id a.streams, a.fds⟩ := by
    refine href.change he (fun _ => rfl) hlists₁ ⟨by rw [hfd₁]; exact hfd, file.stream, ?_, ?_⟩
      (fun q hq => ⟨by rw [hfd₁], hothers₁ q hq⟩) (by rw [htable₁]; exact href.fds) (htable₁ ▸ href.wellFormed)
      (href.bound e he) ?_
    · rw [StreamList.stream, hfile, Option.map_some]
    · rw [hflushed]
      exact hs.flush
    · intro x hx hne
      exact ⟨(href.bound x hx).1, fun heq => hne (congrArg OpenStream.stream (href.eq_of_fd hx he heq))⟩
  -- the handle comes in its place
  have hfresh' : Fresh table'.binding handle := by
    rw [hfree]
    exact hfresh.free e.fd
  have hproper : table'.binding.Proper := Represents.proper ⟨rfl, hw'⟩
  have hgone : table'.binding e.fd = none := by
    rw [hfree, FdMap.free, Function.update_self]
  have hsame : table'.binding.lowestFree = e.fd := by
    have hlow := hproper.lowest
    have hnonneg : 0 ≤ table'.binding.lowestFree := Int.natCast_nonneg _
    rcases lt_trichotomy table'.binding.lowestFree e.fd with hlt | heq | hgt
    · refine absurd ?_ (hlowest _ hnonneg hlt)
      have hkept : t.table.binding.free e.fd table'.binding.lowestFree = t.table.binding table'.binding.lowestFree :=
        Function.update_of_ne (Int.ne_of_lt hlt) _ _
      rw [← hkept, ← hfree]
      exact hlow
    · exact heq
    · refine absurd hgone (hproper.below e.fd ?_ hgt)
      obtain ⟨b, hb⟩ := Option.ne_none_iff_exists'.mp (href.bound e he).1
      rw [← href.fds] at hb
      obtain ⟨n, -, heq, -⟩ := entry_of_binding hb
      rw [heq]
      exact Int.natCast_nonneg n
  obtain ⟨table₂, hregister, hbind, hw₂⟩ := registerToFdTable_spec hw' heap hfresh' type flags
  rw [hsame] at hregister hbind
  -- the stream takes the descriptor for its own
  have href₂ : Refines { t₁ with table := table₂ } ⟨OpenStreams.change e.stream id a.streams, table₂.binding⟩ := by
    refine href₁.setTable rfl hw₂ fun x hx => ?_
    rw [hbind, FdMap.bind]
    by_cases hx' : x.fd = e.fd
    · rw [hx', Function.update_self]
      exact Option.some_ne_none _
    · rw [Function.update_of_ne hx', hfree, FdMap.free, Function.update_of_ne hx', href.fds]
      exact (href₁.bound x hx).1
  obtain ⟨t₂, hcloseAll, hrest⟩ := closeAllStreams_refines href₂
  generalize ho : (OpenStreams.step _ .fcloseall).2 = o at hcloseAll
  have hend : (stdioMachine heap info).step { t₁ with table := table₂ } .fcloseall = some (t₂, o) := hcloseAll
  have hcall : (stdioMachine heap info).step { t₁ with table := table' } (.call (.register handle type flags)) =
      some ({ t₁ with table := table₂ }, .nothing) := by
    simp only [stdioMachine, fdMachine, hregister, Option.map_some]
  refine ⟨{ t₁ with table := table₂ }, t₂, [⟨[], [⟨e.fd, file.stream.file.content⟩]⟩, .nothing],
    [o], ?_, ?_, ?_, ?_⟩
  · rw [Machine.run_cons hfreopen, Machine.run_cons hcall]
    rfl
  · rw [hbind, FdMap.bind, Function.update_self]
  · rw [Machine.run_cons hend]
    rfl
  · rw [hrest.fds]
    change OpenStreams.freeAll (OpenStreams.change e.stream id a.streams) _ e.fd = none
    rw [OpenStreams.freeAll_apply, change_map (f := id) (fun _ => rfl), if_pos (List.mem_map_of_mem he)]

theorem freopen_failed_shares_openedOnce :
    ∃ t t₁ t₂ os₁ os₂, (stdioMachine (fun _ => noInfo) noInfo).run t
        [.freopen 16 false none, .call (.register 8 .file 0)] = some (t₁, os₁) ∧
      t₁.table.binding 0 = some ⟨8, .file, 0⟩ ∧
      (stdioMachine (fun _ => noInfo) noInfo).run t₁ [.fcloseall] = some (t₂, os₂) ∧ t₂.table.binding 0 = none := by
  obtain ⟨t, os, hrun⟩ : ∃ t os, (stdioMachine (fun _ => noInfo) noInfo).run ⟨noStreams, fun _ => 0, emptyTable⟩
    openedOnce = some (t, os) := ⟨_, _, rfl⟩
  have hshares := freopen_failed_shares (fun _ => noInfo) noInfo (fun _ => 0) emptyTable wellFormed_emptyTable
    openedOnce (along_openedOnce.take 2) hrun 16
  cases hrun
  obtain ⟨t₁, t₂, os₁, os₂, h⟩ := hshares (Option.some_ne_none _) 8
    (fresh_of_entries (by decide) (by decide)) (fun d hd hlt => absurd hlt (Int.not_lt.mpr hd)) .file 0
  exact ⟨_, t₁, t₂, os₁, os₂, h⟩

end WindowsLibc.Stdio
