import WorkflowKernel.Communicator.Server.Memory

/-!
# The links hold what the states say

`list_add_tail` links an entry right into an empty list only, and `handle_reply_result` calls it with
its arguments swapped, which is right only if the entry's own link is that of an empty list as well.
The usual `list_del` does not leave such a link. While every call finds the lists so, and the two
branches that unlink an entry twice are not taken, each list holds at most one entry, and the one that
the states of the connections say.

## What is proved

- `Mirror.step`: such a step on the links is that step of the connections' model.
- `mirrored`: in every run of such steps the links are right and both invariants hold.
- `Mirror.drain_returns`: a drain ends after at most two rounds.
-/

namespace WorkflowKernel.Communicator.Server

open WorkflowKernel.Transition
open WorkflowKernel.ListHead

variable {C : Type} [DecidableEq C] {L : ListLib (Cell C)} {fuel : Nat}

/-- `new_session` makes a session of an entry taken off the alive list, `listen_fd` is open in the
section of `send_message_sync` and its `list_add_tail` finds the list empty, and the section of
`handle_reply_result` does not come to its `list_add_tail` or finds both arguments empty. -/
def ListsKept (m : Memory C) : Label C → Prop
  | .createRequestSession c o => SessionMade m.server c o
  | .sendMessageSyncService _ => 0 ≤ m.server.listenFd ∧ listEmpty m.links .alive = true
  | .handleReplyResultService c => m.server.stopFlag = true ∨ m.server.listenFd < 0 ∨
      listEmpty m.links (.entry c) = true ∧ listEmpty m.links .alive = true
  | _ => True

section Sections

variable {m m' : Memory C} {s' : State C} {c : C}

omit [DecidableEq C] in
theorem write_eq {s : Option (State C)} {l : Links (Cell C)} (h : m.write s l = some m') :
    ∃ s', s = some s' ∧ m' = { m with server := s', links := l } := by
  obtain ⟨s', hs', rfl⟩ := Option.map_eq_some_iff.mp h
  exact ⟨s', hs', rfl⟩

/-- The alive list is empty when `list_empty` says so. -/
theorem Mirror.alive_empty (h : Mirror m) (hempty : listEmpty m.links .alive = true) :
    m.server.aliveList = [] := by
  have hnone := h.alive.empty_iff.mp hempty
  rw [Option.map_eq_none_iff] at hnone
  exact List.head?_eq_none_iff.mp hnone

/-- An entry leaves the alive list. -/
theorem Mirror.unlinkAlive (h : Mirror m) (hinv : Inv m.server) (hon : c ∈ m.server.aliveList)
    {l : Links (Cell C)} (hlist : s'.aliveList = m.server.aliveList.erase c)
    (hl : Holds l .alive none ∧ Within m.links l .alive (.entry c))
    (hconn : ∀ d, (s'.conn d).accepted = (m.server.conn d).accepted ∧
      (s'.conn d).idle = (m.server.conn d).idle) : Mirror { m with server := s', links := l } := by
  refine h.editAlive (o := none) hl.2 ((hinv.conns c).onAlive hon).1 ?_ hl.1 hconn
  rw [hlist, h.on_iff.mp hon, List.erase_cons_head]
  rfl

omit [DecidableEq C] in
theorem Mirror.alive_holds (h : Mirror m) (hon : c ∈ m.server.aliveList) :
    Holds m.links .alive (some (.entry c)) := by
  have halive := h.alive
  rw [h.on_iff.mp hon] at halive
  exact halive

/-- An entry leaves the idle list. -/
theorem Mirror.unlinkIdle (h : Mirror m) (hinv : Inv m.server)
    (hidle : (m.server.conn c).idle = true) {l : Links (Cell C)}
    (hl : Holds l (.idle c) none ∧ Within m.links l (.idle c) (.entry c))
    (hlist : s'.aliveList = m.server.aliveList) (hoff : (s'.conn c).idle = false)
    (hconn : ∀ d, d ≠ c → s'.conn d = m.server.conn d) :
    Mirror { m with server := s', links := l } := by
  have hnot := ((hinv.conns c).onIdle ((hinv.conns c).idle hidle)).1
  refine h.editIdle hl.2 hnot hlist ?_ fun d hd => ?_
  · rw [hoff]
    exact hl.1
  · rw [hconn d hd]
    exact ⟨rfl, rfl⟩

omit [DecidableEq C] in
theorem Mirror.idle_holds (h : Mirror m) (hinv : Inv m.server)
    (hidle : (m.server.conn c).idle = true) : Holds m.links (.idle c) (some (.entry c)) := by
  have hstate := (hinv.conns c).idle hidle
  have hacc : (m.server.conn c).accepted = true := by
    by_contra hno
    have hfresh := (hinv.conns c).fresh (by simpa using hno)
    rw [hstate] at hfresh
    cases hfresh
  have hholds := h.idle c hacc
  rw [if_pos hidle] at hholds
  exact hholds

/-! ## The sections on the links -/

theorem mirror_acceptConn {timeout : Int} (h : Mirror m) (hinv : Inv m.server)
    (hstep : acceptConn m.server c timeout = some s') :
    Mirror { m with server := s', links := listInit m.links (.idle c) } := by
  simp only [acceptConn] at hstep
  split at hstep
  · cases hstep
  · next hnew =>
    cases hstep
    have hoff : c ∉ m.server.aliveList := by
      intro hon
      have hs := (hinv.conns c).alive hon
      rw [(hinv.conns c).fresh (by simpa using hnew)] at hs
      cases hs
    refine h.editIdle (fun d hd _ => listInit_other hd) hoff rfl ?_ fun d hd => ?_
    · have hidle : ((m.server.upd c fun _ =>
          if m.server.stopFlag then mpollerDel { Conn.absent with
            accepted := true
            state := .connected
            ref := 1
            reg := some (.read, timeout) }
          else { Conn.absent with
            accepted := true
            state := .connected
            ref := 1
            reg := some (.read, timeout) }).conn c).idle = false := by
        rw [conn_upd_self]
        split
        · rfl
        · rfl
      rw [hidle]
      exact listInit_holds ..
    · rw [conn_upd_of_ne _ c _ hd]
      exact ⟨rfl, rfl⟩

/-- The poller thread in `create_request` finds a KEEPALIVE entry on the alive list. -/
theorem Inv.passing {s : State C} (h : Inv s) (hphase : (s.conn c).phase = .service)
    (hkeep : (s.conn c).state = .keepalive) : c ∈ s.aliveList := by
  have hpos := (h.conns c).polled (by rw [hphase]; decide)
  rcases (h.conns c).keepalive hkeep with hon | hp | htok
  · exact hon
  · rw [hphase] at hp
    cases hp
  · rw [Conn.tokens] at htok
    omega

theorem mirror_createRequestService (h : Mirror m) (hinv : Inv m.server)
    (hstep : createRequestService m.server c = some s') :
    Mirror { m with
      server := s'
      links := if (m.server.conn c).state = .keepalive then L.listDel m.links (.entry c)
        else m.links } := by
  simp only [createRequestService] at hstep
  split at hstep
  · next hphase =>
    split at hstep
    · next hkeep =>
      cases hstep
      rw [if_pos hkeep]
      have hon := hinv.passing hphase hkeep
      refine h.unlinkAlive hinv hon rfl (holds_listDel (h.alive_holds hon)) fun d => ?_
      exact (SameLists.upd (s := m.server) (c := c) (f := fun k => { k with phase := .session })
        (.refl _) fun _ => ⟨rfl, rfl⟩).2 d
    · next hne =>
      rw [if_neg hne]
      split at hstep
      · cases hstep
        exact h.same (SameLists.upd (.refl _) fun _ => ⟨rfl, rfl⟩)
      · cases hstep
        exact h.same (SameLists.upd (.refl _) fun _ => sameLists_failRequest _ _)
  · cases hstep

theorem mirror_handleIncomingRequestService (h : Mirror m) (hinv : Inv m.server)
    (hstep : handleIncomingRequestService m.server c = some s') :
    Mirror { m with
      server := s'
      links := if (m.server.conn c).state = .keepalive then L.listDel m.links (.entry c)
        else m.links } := by
  simp only [handleIncomingRequestService] at hstep
  split at hstep
  · next hholder =>
    cases hstep
    by_cases hkeep : (m.server.conn c).state = .keepalive
    · rw [if_pos hkeep, if_pos hkeep]
      obtain ⟨hphase, hone, -⟩ := (hinv.conns c).handled hholder
      have hon : c ∈ m.server.aliveList := by
        rcases (hinv.conns c).keepalive hkeep with hon | hp | htok
        · exact hon
        · rw [hphase] at hp
          cases hp
        · omega
      refine h.unlinkAlive hinv hon rfl (holds_listDel (h.alive_holds hon)) fun d => ?_
      exact (SameLists.upd (s := m.server) (c := c)
        (f := fun k => { k with holder := .none }.leave none) (.refl _) fun _ => ⟨rfl, rfl⟩).2 d
    · rw [if_neg hkeep, if_neg hkeep]
      exact h.same (SameLists.upd (.refl _) fun _ => ⟨rfl, rfl⟩)
  · cases hstep

omit [DecidableEq C] in
/-- The handler of a terminal result finds an IDLE entry on the idle list. -/
theorem Inv.takenIdle {s : State C} {res : PrState × Errno} (h : Inv s)
    (hmem : res ∈ (s.conn c).readResults) (hres : res.1.terminal = true)
    (hholder : (s.conn c).holder = .none) (hs : (s.conn c).state = .idle) :
    (s.conn c).idle = true := by
  obtain ⟨-, hw, -, hone, -⟩ := (h.conns c).taken hmem hres
  rcases (h.conns c).offIdle hs with hidle | hrep | hw' | htok
  · exact hidle
  · rw [hholder] at hrep
    cases hrep
  · exact absurd hw' hw
  · omega

theorem incomingLinks_terminal {l : Links (Cell C)} {res : PrState} (hres : res.terminal = true)
    (state : ConnState) : incomingLinks L l c res state =
      if state = .idle then L.listDel l (.entry c) else l := by
  cases res with
  | success | modified => cases hres
  | finished | error | deleted | stopped =>
    cases state with
    | idle => rfl
    | connecting | connected | receiving | success | keepalive | closing | error => rfl

/-- The handler of a success result links the entry into the idle list, if the terminal result has
not been handled before. -/
theorem mirror_handleSuccess {res : PrState × Errno} (h : Mirror m) (hinv : Inv m.server)
    (hres : res.1 = .success)
    (hstep : handleIncomingRequest (m.server.upd c fun k =>
      { k with readResults := k.readResults.erase res }) c res = some s') :
    Mirror { m with
      server := s'
      links := incomingLinks L m.links c res.1 (m.server.conn c).state } := by
  have hc := hinv.conns c
  simp only [handleIncomingRequest, conn_upd_self, upd_upd, hres] at hstep
  rw [hres]
  split at hstep
  · split at hstep
    · next hs =>
      cases hstep
      obtain ⟨hoff, hidle, -, -⟩ := hc.loose (by rw [hs]; decide) (by rw [hs]; decide)
      have hacc : (m.server.conn c).accepted = true := by
        simpa using hc.accepted (by rw [hs]; decide)
      have hnone := h.idle c hacc
      rw [hidle] at hnone
      obtain ⟨hholds, hwithin⟩ := holds_listAdd (L := L) (x := .entry c) hnone (by simp)
      rw [hs]
      refine h.editIdle hwithin hoff rfl ?_ fun d hd => ?_
      · rw [conn_upd_self, conn_linkIdle_self]
        exact hholds
      · rw [conn_upd_of_ne _ c _ hd, conn_linkIdle_of_ne _ c hd, conn_upd_of_ne _ c _ hd]
        exact ⟨rfl, rfl⟩
    · next hs =>
      cases hstep
      have hlinks : incomingLinks L m.links c .success (m.server.conn c).state = m.links := by
        cases hstate : (m.server.conn c).state with
        | success => exact absurd hstate hs
        | connecting | connected | receiving | idle | keepalive | closing | error => rfl
      rw [hlinks]
      exact h.same (SameLists.upd (.refl _) fun _ => ⟨rfl, rfl⟩)
  · cases hstep

/-- The handler of a terminal result takes an IDLE entry off the idle list. -/
theorem mirror_handleTerminal {res : PrState × Errno} (h : Mirror m) (hinv : Inv m.server)
    (hmem : res ∈ (m.server.conn c).readResults) (hres : res.1.terminal = true)
    (hstep : handleIncomingRequest (m.server.upd c fun k =>
      { k with readResults := k.readResults.erase res }) c res = some s') :
    Mirror { m with
      server := s'
      links := incomingLinks L m.links c res.1 (m.server.conn c).state } := by
  simp only [handleIncomingRequest, conn_upd_self, upd_upd] at hstep
  rw [incomingLinks_terminal hres]
  split at hstep
  · next hholder =>
    split at hstep
    · next hsuccess =>
      rw [hsuccess] at hres
      cases hres
    · by_cases hs : (m.server.conn c).state = .idle
      · rw [if_pos hs]
        have hidle := hinv.takenIdle hmem hres hholder hs
        simp only [hs] at hstep
        cases hstep
        refine h.unlinkIdle hinv hidle (holds_listDel (h.idle_holds hinv hidle)) rfl ?_
          fun d hd => ?_
        · rw [conn_upd_self, conn_unlinkIdle_self]
          rfl
        · rw [conn_upd_of_ne _ c _ hd, conn_unlinkIdle_of_ne _ c hd, conn_upd_of_ne _ c _ hd]
      · rw [if_neg hs]
        apply h.same
        split at hstep
        · cases hstep
          exact SameLists.upd (.refl _) fun _ => ⟨rfl, rfl⟩
        · next hidle => exact absurd hidle hs
        all_goals
          cases hstep
          exact SameLists.upd (.refl _) fun _ => ⟨rfl, rfl⟩
  · cases hstep

theorem mirror_handleReadResult {res : PrState × Errno} (h : Mirror m) (hinv : Inv m.server)
    (hstep : handleReadResult m.server c res = some s') :
    Mirror { m with
      server := s'
      links := incomingLinks L m.links c res.1 (m.server.conn c).state } := by
  simp only [handleReadResult] at hstep
  split at hstep
  · next hmem =>
    split at hstep
    · next hres =>
      cases hstep
      rw [hres]
      exact h.same (SameLists.upd (.refl _) fun _ => ⟨rfl, rfl⟩)
    · next hres =>
      cases hr : res.1 with
      | success =>
        rw [← hr]
        exact mirror_handleSuccess h hinv hr hstep
      | modified => exact absurd hr hres
      | finished | error | deleted | stopped =>
        rw [← hr]
        exact mirror_handleTerminal h hinv hmem (by rw [hr]; rfl) hstep
  · cases hstep

/-- The thread that completes a reply links the entry into an empty alive list. -/
theorem mirror_keepAlive {f : Conn → Conn} (h : Mirror m) (hinv : Inv m.server)
    (hrep : (m.server.conn c).holder.replying = true) (hempty : listEmpty m.links .alive = true)
    {l : Links (Cell C)}
    (hl : Holds l .alive (some (.entry c)) ∧ Within m.links l .alive (.entry c))
    (hf : ∀ k, (f k).accepted = k.accepted ∧ (f k).idle = k.idle) :
    Mirror { m with
      server := (((m.server.upd c fun k => { k with state := .keepalive }).linkAlive c).upd c
        f).logCompleted c
      links := l } := by
  obtain ⟨-, hidle, -⟩ := (hinv.conns c).replying hrep
  have hlist := h.alive_empty hempty
  refine h.editAlive (o := some c) hl.2 hidle ?_ hl.1 fun d => ?_
  · show m.server.aliveList ++ [c] = [c]
    rw [hlist]
    rfl
  · have hsame : SameLists m.server
        ((m.server.upd c fun k => { k with state := .keepalive }).upd c f) :=
      SameLists.upd (SameLists.upd (.refl _) fun _ => ⟨rfl, rfl⟩) hf
    exact hsame.2 d

theorem Mirror.alive_none (h : Mirror m) (hempty : listEmpty m.links .alive = true) :
    Holds m.links .alive none := by
  have hnone := h.alive
  rw [h.alive_empty hempty] at hnone
  exact hnone

theorem mirror_sendMessageSyncService (h : Mirror m) (hinv : Inv m.server)
    (hlisten : 0 ≤ m.server.listenFd) (hempty : listEmpty m.links .alive = true)
    (hstep : sendMessageSyncService m.server c = some s') :
    Mirror { m with
      server := s'
      links := listAddTail m.links .alive (.entry c) } := by
  simp only [sendMessageSyncService, if_pos hlisten] at hstep
  split at hstep
  · next hholder =>
    cases hstep
    exact mirror_keepAlive h hinv (by rw [hholder]; rfl) hempty
      (holds_listAddTail (h.alive_none hempty) (by simp)) fun _ => ⟨rfl, rfl⟩
  · cases hstep

/-- `handle_reply_result` deletes the registration, or finds both arguments of its `list_add_tail`
empty. -/
theorem mirror_handleReplyResultService (h : Mirror m) (hinv : Inv m.server)
    (hok : ListsKept m (.handleReplyResultService c))
    (hstep : handleReplyResultService m.server c = some s') :
    Mirror { m with
      server := s'
      links := if m.server.stopFlag = false ∧ 0 ≤ m.server.listenFd then
          listAddTail m.links (.entry c) .alive
        else m.links } := by
  simp only [handleReplyResultService] at hstep
  split at hstep
  · next hholder =>
    cases hstep
    by_cases hopen : m.server.stopFlag = false ∧ 0 ≤ m.server.listenFd
    · rw [if_pos hopen, if_pos hopen]
      obtain hset | hneg | ⟨hself, hempty⟩ := hok
      · rw [hopen.1] at hset
        cases hset
      · exact absurd hopen.2 (Int.not_le.mpr hneg)
      · exact mirror_keepAlive h hinv (by rw [hholder]; rfl) hempty
          (holds_listAddTail_swapped hself (by simp)) fun _ => ⟨rfl, rfl⟩
    · rw [if_neg hopen, if_neg hopen]
      exact h.same (SameLists.logCompleted (SameLists.upd (SameLists.upd (.refl _)
        fun _ => ⟨rfl, rfl⟩) fun _ => ⟨rfl, rfl⟩))
  · cases hstep

/-- A list that is not empty is the idle list of an entry that is on it. -/
theorem Mirror.idle_of_nonempty (h : Mirror m) (hacc : (m.server.conn c).accepted = true)
    (hne : listEmpty m.links (.idle c) = false) : (m.server.conn c).idle = true := by
  by_contra hno
  have hholds := h.idle c hacc
  rw [if_neg hno] at hholds
  rw [hholds.empty_iff.mpr rfl] at hne
  cases hne

theorem mirror_replyReliable (h : Mirror m) (hinv : Inv m.server)
    (hstep : m.replyReliable L c = some m') :
    Server.replyReliable m.server c = some m'.server ∧ Mirror m' := by
  simp only [Memory.replyReliable] at hstep
  split at hstep
  · next hguard =>
    obtain ⟨hacc, hholder, hne⟩ := hguard
    have hidle := h.idle_of_nonempty hacc hne
    have hholds := h.idle_holds hinv hidle
    rw [if_pos hholds.1] at hstep
    cases hstep
    refine ⟨by simp only [Server.replyReliable, hholder, hidle, and_self, if_true], ?_⟩
    refine h.unlinkIdle hinv hidle (holds_listDel hholds) rfl ?_ fun d hd => ?_
    · rw [conn_upd_self, conn_unlinkIdle_self]
    · rw [conn_upd_of_ne _ c _ hd, conn_unlinkIdle_of_ne _ c hd]
  · cases hstep

theorem mirror_targetShutdown (h : Mirror m) (hinv : Inv m.server)
    (hstep : m.targetShutdown c = some m') :
    Server.targetShutdown m.server c = some m'.server ∧ Mirror m' := by
  simp only [Memory.targetShutdown] at hstep
  split at hstep
  · next hguard =>
    obtain ⟨hacc, hholder, hne⟩ := hguard
    have hidle := h.idle_of_nonempty hacc hne
    have hholds := h.idle_holds hinv hidle
    rw [if_pos hholds.1] at hstep
    cases hstep
    refine ⟨by simp only [Server.targetShutdown, hholder, hidle, and_self, if_true], ?_⟩
    refine h.unlinkIdle hinv hidle (holds_listDelete hholds) rfl ?_ fun d hd => ?_
    · rw [conn_upd_self, conn_unlinkIdle_self]
      rfl
    · rw [conn_upd_of_ne _ c _ hd, conn_unlinkIdle_of_ne _ c hd]
  · cases hstep

/-! ## The drain -/

theorem drainLoop_empty {max cnt : Int} (hempty : listEmpty m.links .alive = true)
    (hstep : m.drainLoop max fuel cnt = some m') : m' = m := by
  cases fuel with
  | zero => cases hstep
  | succ fuel =>
    simp only [Memory.drainLoop, hempty, or_true, if_true] at hstep
    exact (Option.some.inj hstep).symm

/-- One round takes the entry of the alive list, if there is one. -/
theorem mirror_drainOne (h : Mirror m) (hinv : Inv m.server) (hon : c ∈ m.server.aliveList) :
    Mirror { m with
      server := drainOne m.server c
      links := listDelete m.links (.entry c) } := by
  refine h.unlinkAlive hinv hon rfl (holds_listDelete (h.alive_holds hon)) fun d => ?_
  exact (SameLists.upd (s := m.server) (c := c)
    (f := fun k => { mpollerDel k with state := .closing }) (.refl _) fun _ => ⟨rfl, rfl⟩).2 d

/-- The loop over the links is the loop over the entries of the alive list. -/
theorem mirror_drainLoop {max cnt : Int} (h : Mirror m) (hinv : Inv m.server)
    (hstep : m.drainLoop max fuel cnt = some m') :
    m'.server = Server.drainLoop max cnt m.server.aliveList m.server ∧ Mirror m' := by
  cases hlist : m.server.aliveList with
  | nil =>
    have hnone := h.alive
    rw [hlist] at hnone
    rw [drainLoop_empty (hnone.empty_iff.mpr rfl) hstep]
    exact ⟨rfl, h⟩
  | cons c rest =>
    have hon : c ∈ m.server.aliveList := by rw [hlist]; exact List.mem_cons_self
    obtain rfl : rest = [] := by
      have hone := h.on_iff.mp hon
      rw [hlist] at hone
      exact (List.cons.inj hone).2
    have hholds := h.alive_holds hon
    have hnext : m.links.next .alive = .entry c := hholds.1
    have hfull : listEmpty m.links .alive = false := by
      rw [Bool.eq_false_iff]
      intro hempty
      cases hholds.empty_iff.mp hempty
    cases fuel with
    | zero => cases hstep
    | succ fuel =>
      simp only [Memory.drainLoop, hfull, Bool.false_eq_true, or_false, hnext] at hstep
      simp only [Server.drainLoop]
      split at hstep
      · next hmax =>
        obtain rfl := Option.some.inj hstep
        rw [if_pos hmax]
        exact ⟨rfl, h⟩
      · next hmax =>
        have hmirror := mirror_drainOne h hinv hon
        have hgone : (drainOne m.server c).aliveList = [] := by
          show m.server.aliveList.erase c = []
          rw [hlist, List.erase_cons_head]
        have hnone := hmirror.alive
        rw [hgone] at hnone
        rw [if_neg hmax, drainLoop_empty (hnone.empty_iff.mpr rfl) hstep]
        exact ⟨rfl, hmirror⟩

/-- A drain ends after at most two rounds. -/
theorem Mirror.drain_returns (h : Mirror m) (max : Int) : ∃ m', m.drain (fuel + 2) max = some m' := by
  cases hlist : m.server.aliveList with
  | nil =>
    have hnone := h.alive
    rw [hlist] at hnone
    have hempty : listEmpty m.links .alive = true := hnone.empty_iff.mpr rfl
    exact ⟨m, by simp only [Memory.drain, Memory.drainLoop, hempty, or_true, if_true]⟩
  | cons c rest =>
    have hholds := h.alive_holds (c := c) (by rw [hlist]; exact List.mem_cons_self)
    have hnext : m.links.next .alive = .entry c := hholds.1
    have hempty : listEmpty (listDelete m.links (.entry c)) .alive = true :=
      hholds.delete.empty_iff.mpr rfl
    simp only [Memory.drain, Memory.drainLoop, hnext, hempty, or_true, if_true]
    split
    · exact ⟨_, rfl⟩
    · exact ⟨_, rfl⟩

end Sections

/-! ## Every step -/

section Steps

variable {m m' : Memory C} {a : Label C}

/-- A step on the links is the step of the connections' model, and leaves the links right. -/
theorem Mirror.step (h : Mirror m) (hinv : Inv m.server) (hok : ListsKept m a)
    (hstep : Memory.step L fuel m a = some m') :
    Server.step m.server a = some m'.server ∧ Mirror m' := by
  cases hlisted : a.unlisted with
  | true =>
    -- the section writes no link
    have hwrite : m.write (Server.step m.server a) m.links = some m' := by
      cases a <;> first | exact hstep | cases hlisted
    obtain ⟨s', hs', rfl⟩ := write_eq hwrite
    exact ⟨hs', h.same (sameLists_step hlisted hs')⟩
  | false =>
    cases a with
    | acceptConn c timeout =>
      obtain ⟨s', hs', rfl⟩ := write_eq hstep
      exact ⟨hs', mirror_acceptConn h hinv hs'⟩
    | createRequestService c =>
      obtain ⟨s', hs', rfl⟩ := write_eq hstep
      exact ⟨hs', mirror_createRequestService h hinv hs'⟩
    | handleReadResult c res =>
      obtain ⟨s', hs', rfl⟩ := write_eq hstep
      exact ⟨hs', mirror_handleReadResult h hinv hs'⟩
    | handleIncomingRequestService c =>
      obtain ⟨s', hs', rfl⟩ := write_eq hstep
      exact ⟨hs', mirror_handleIncomingRequestService h hinv hs'⟩
    | handleReplyResultService c =>
      obtain ⟨s', hs', rfl⟩ := write_eq hstep
      exact ⟨hs', mirror_handleReplyResultService h hinv hok hs'⟩
    | replyReliable c => exact mirror_replyReliable h hinv hstep
    | sendMessageSyncService c =>
      obtain ⟨s', hs', rfl⟩ := write_eq hstep
      rw [if_pos hok.1]
      exact ⟨hs', mirror_sendMessageSyncService h hinv hok.1 hok.2 hs'⟩
    | targetShutdown c => exact mirror_targetShutdown h hinv hstep
    | drain max =>
      obtain ⟨hserver, hmirror⟩ := mirror_drainLoop h hinv hstep
      exact ⟨congrArg some hserver.symm, hmirror⟩
    | shutdownServiceDrain =>
      change Memory.shutdownServiceDrain fuel m = some m' at hstep
      unfold Memory.shutdownServiceDrain at hstep
      split at hstep
      · next hpos =>
        have hm : Mirror { m with
            server := { m.server with shutdowns := m.server.shutdowns - 1 } } :=
          h.same ⟨rfl, fun _ => ⟨rfl, rfl⟩⟩
        obtain ⟨hserver, hmirror⟩ := mirror_drainLoop hm ⟨hinv.nodup, hinv.conns, hinv.log⟩ hstep
        refine ⟨?_, hmirror⟩
        show Server.shutdownServiceDrain m.server = some m'.server
        rw [Server.shutdownServiceDrain, if_pos hpos, hserver]
        rfl
      · cases hstep
    | _ => cases hlisted

theorem ListsKept.kept (h : ListsKept m a) : Kept m.server a := by
  cases a
  case createRequestSession => exact h
  case sendMessageSyncService => exact h.1
  all_goals trivial

/-- The links are right, and the connections' model has its invariants. -/
structure Mirrored (m : Memory C) : Prop where
  mirror : Mirror m
  inv : Inv m.server
  refs : RefInv m.server

theorem Mirrored.step (h : Mirrored m) (hok : ListsKept m a)
    (hstep : Memory.step L fuel m a = some m') :
    Server.step m.server a = some m'.server ∧ Mirrored m' := by
  obtain ⟨hserver, hmirror⟩ := h.mirror.step h.inv hok hstep
  exact ⟨hserver, hmirror, inv_step h.inv hok.kept hserver, refInv_step h.refs hserver⟩

/-- In every run of such steps the links are right. -/
theorem mirrored : InductiveInvariant (memory L fuel) ListsKept (Mirrored (C := C)) where
  init := by
    rintro m ⟨listenFd, l, rfl⟩
    refine ⟨⟨Nat.zero_le 1, listInit_holds l .alive, fun c hc => ?_, rfl⟩,
      inductive_inv.init _ ⟨listenFd, rfl⟩, inductive_refInv.init _ ⟨listenFd, rfl⟩⟩
    cases hc
  step _ _ _ h hok hstep := (h.step hok hstep).2

end Steps

/-! ## Runs -/

/-- The condition, as a check that runs. -/
def listsKeptB (m : Memory C) : Label C → Bool
  | .sendMessageSyncService _ => 0 ≤ m.server.listenFd && listEmpty m.links .alive
  | .handleReplyResultService c =>
    m.server.stopFlag || m.server.listenFd < 0 ||
      listEmpty m.links (.entry c) && listEmpty m.links .alive
  | a => keptB m.server a

theorem listsKept_of_check (m : Memory C) (a : Label C) (h : listsKeptB m a = true) :
    ListsKept m a := by
  cases a with
  | createRequestSession c o => exact kept_of_check m.server (.createRequestSession c o) h
  | sendMessageSyncService =>
    simp only [listsKeptB, Bool.and_eq_true, decide_eq_true_eq] at h
    exact h
  | handleReplyResultService =>
    simp only [listsKeptB, Bool.or_eq_true, Bool.and_eq_true, decide_eq_true_eq, or_assoc] at h
    exact h
  | _ => trivial

/-- A listening service; the cells but the alive list hold anything. -/
def Memory.start : Memory Nat where
  server := State.listening Nat 3
  links := listInit { next := fun _ => .alive, prev := fun _ => .alive } .alive
  undefined := false

theorem memory_start (L : ListLib (Cell Nat)) (fuel : Nat) : (memory L fuel).Init Memory.start :=
  ⟨3, _, rfl⟩

end WorkflowKernel.Communicator.Server
