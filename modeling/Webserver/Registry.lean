import Webserver.Runs
import Webserver.TcpServer

namespace Webserver.Registry

open Runs TcpServer ConnectionNames

variable {L P : Type}

def nameOf (s : System L P) (c : Nat) : Option (List Char) := s.conns[c]?.map Conn.name

def Ran (s : System L P) (c : Nat) : Prop := ∃ stage, (ServerCall.removeConnectionInLoop c, stage) ∈ s.calls

/-- What connections_ is at any moment, and that a further removeConnectionInLoop
of any connection, whether it has run before or not, leaves the others in it. -/
structure Registered (s : System L P) : Prop where
  held : ∀ n c, s.server.connections.lookup n = some c ↔ nameOf s c = some n ∧ ¬ Ran s c
  distinct : (s.conns.map Conn.name).Nodup
  others : ∀ c d n, d ≠ c → ((removeConnectionInLoop c s).server.connections.lookup n = some d ↔
    s.server.connections.lookup n = some d)

structure Inv (addr : SockAddr) (name : List Char) (s : System L P) : Prop where
  server : s.server.name = name ∧ s.server.ipPort = InetAddress.toIpPort addr
  few : s.conns.length < 2 ^ 31 - 1
  ids : s.server.nextConnId.val = (s.conns.length : Int) + 1
  names : ∀ c n, nameOf s c = some n → n = connName name (InetAddress.toIpPort addr) ((c + 1 : Nat) : Int)
  queued : ∀ c ∈ s.removals, c < s.conns.length
  ran : ∀ c, Ran s c → c < s.conns.length
  held : ∀ n c, s.server.connections.lookup n = some c ↔ nameOf s c = some n ∧ ¬ Ran s c

theorem lt_of_nameOf {s : System L P} {c : Nat} {n : List Char} (h : nameOf s c = some n) : c < s.conns.length := by
  obtain ⟨k, hk, _⟩ := Option.map_eq_some_iff.mp h
  exact (List.getElem?_eq_some_iff.mp hk).1

theorem nameOf_modify {s t : System L P} {c : Nat} {f : Conn L P → Conn L P} (hf : ∀ k, (f k).name = k.name)
    (ht : t.conns = s.conns.modify c f) (d : Nat) : nameOf t d = nameOf s d := by
  rw [nameOf, nameOf, ← List.getElem?_map, ← List.getElem?_map, ht, Segments.map_modify_of_same hf]

variable {addr : SockAddr} {name : List Char}

theorem Inv.injective {s : System L P} (h : Inv addr name s) {c d : Nat} {n : List Char} (hc : nameOf s c = some n)
    (hd : nameOf s d = some n) : c = d := by
  have hfew := h.few
  have hcl := lt_of_nameOf hc
  have hdl := lt_of_nameOf hd
  have hn := (h.names c n hc).symm.trans (h.names d n hd)
  have hcd := connName_injective name addr (show c + 1 < 2 ^ 31 by omega) (show d + 1 < 2 ^ 31 by omega) hn
  omega

theorem Inv.frame {s t : System L P} (h : Inv addr name s) (hserver : t.server = s.server)
    (hran : ∀ c, Ran t c ↔ Ran s c) (hlength : t.conns.length = s.conns.length)
    (hnames : ∀ c, nameOf t c = nameOf s c) (hqueued : ∀ c ∈ t.removals, c < s.conns.length) : Inv addr name t := by
  refine ⟨hserver ▸ h.server, hlength ▸ h.few, ?_, ?_, hlength ▸ hqueued, ?_, ?_⟩
  · rw [hserver, hlength]
    exact h.ids
  · intro c n hc
    exact h.names c n (hnames c ▸ hc)
  · intro c hc
    rw [hlength]
    exact h.ran c ((hran c).mp hc)
  · intro n c
    rw [hserver, hnames, hran]
    exact h.held n c

theorem Inv.modify {s t : System L P} (h : Inv addr name s) {c : Nat} {f : Conn L P → Conn L P}
    (hf : ∀ k, (f k).name = k.name) (hserver : t.server = s.server) (hran : ∀ c, Ran t c ↔ Ran s c)
    (hremovals : t.removals = s.removals) (ht : t.conns = s.conns.modify c f) : Inv addr name t := by
  refine h.frame hserver hran ?_ (nameOf_modify hf ht) (hremovals ▸ h.queued)
  rw [ht, List.length_modify]

theorem Inv.lookup_removed {s : System L P} (h : Inv addr name s) {c d : Nat} {k : Conn L P}
    (hk : s.conns[c]? = some k) (hdc : d ≠ c) (n : List Char) :
    (s.server.connections.erase k.name).lookup n = some d ↔ s.server.connections.lookup n = some d := by
  by_cases hn : n = k.name
  · subst n
    have hc : nameOf s c = some k.name := by rw [nameOf, hk, Option.map_some]
    rw [AList.lookup_erase]
    constructor
    · intro he
      cases he
    · intro he
      exact absurd (h.injective ((h.held _ _).mp he).1 hc) hdc
  · rw [AList.lookup_erase_ne hn]

theorem removeConnectionInLoop_others {s : System L P} (h : Inv addr name s) (c d : Nat) (n : List Char)
    (hdc : d ≠ c) : (removeConnectionInLoop c s).server.connections.lookup n = some d ↔
      s.server.connections.lookup n = some d := by
  simp only [removeConnectionInLoop]
  split
  · exact Iff.rfl
  · rename_i k hk
    exact h.lookup_removed hk hdc n

theorem removeConnectionInLoop_eq {s : System L P} {c : Nat} {k : Conn L P} (hk : s.conns[c]? = some k) :
    removeConnectionInLoop c s =
      { s with
        server := { s.server with connections := s.server.connections.erase k.name }
        conns := s.conns.modify c (Conn.step .queueDestroyed) } := by
  simp only [removeConnectionInLoop, hk]

theorem length_removeConnectionInLoop (c : Nat) (s : System L P) :
    (removeConnectionInLoop c s).conns.length = s.conns.length := by
  simp only [removeConnectionInLoop]
  split
  · rfl
  · exact List.length_modify ..

theorem removeConnectionInLoop_calls (c : Nat) (s : System L P) :
    (removeConnectionInLoop c s).calls = s.calls ∧ (removeConnectionInLoop c s).removals = s.removals := by
  simp only [removeConnectionInLoop]
  split
  · exact ⟨rfl, rfl⟩
  · exact ⟨rfl, rfl⟩

theorem called_ran (c : Nat) (s : System L P) (d : Nat) :
    Ran (s.called (.removeConnectionInLoop c)) d ↔ Ran s d ∨ d = c := by
  simp [Ran, System.called, exists_or]

theorem removed_ran (c : Nat) (s : System L P) (d : Nat) :
    Ran (removeConnectionInLoop c (s.called (.removeConnectionInLoop c))) d ↔ Ran s d ∨ d = c := by
  rw [Ran, (removeConnectionInLoop_calls c _).1]
  exact called_ran c s d

theorem removeConnectionInLoop_inv {s : System L P} (h : Inv addr name s) {c : Nat} (hc : c < s.conns.length) :
    Inv addr name (removeConnectionInLoop c (s.called (.removeConnectionInLoop c))) := by
  obtain ⟨k, hk⟩ : ∃ k, s.conns[c]? = some k := ⟨_, List.getElem?_eq_getElem hc⟩
  have hname : nameOf s c = some k.name := by rw [nameOf, hk, Option.map_some]
  have heq : removeConnectionInLoop c (s.called (.removeConnectionInLoop c)) = _ :=
    removeConnectionInLoop_eq (s := s.called (.removeConnectionInLoop c)) hk
  have hran := removed_ran c s
  have hlength : (removeConnectionInLoop c (s.called (.removeConnectionInLoop c))).conns.length = s.conns.length :=
    length_removeConnectionInLoop c _
  have hnames := nameOf_modify (s := s) (t := removeConnectionInLoop c (s.called (.removeConnectionInLoop c)))
    (f := Conn.step .queueDestroyed) (fun _ => rfl) (by rw [heq]; rfl)
  refine ⟨by rw [heq]; exact h.server, by rw [hlength]; exact h.few, ?_, ?_, ?_, ?_, ?_⟩
  · rw [hlength, heq]
    exact h.ids
  · intro d n hd
    exact h.names d n (hnames d ▸ hd)
  · rw [hlength, (removeConnectionInLoop_calls c _).2]
    exact h.queued
  · intro d hd
    rw [hlength]
    rcases (hran d).mp hd with hd | rfl
    · exact h.ran d hd
    · exact hc
  · intro n d
    rw [hnames, hran]
    by_cases hdc : d = c
    · subst d
      rw [heq]
      constructor
      · intro hl
        by_cases hn : n = k.name
        · subst n
          rw [AList.lookup_erase] at hl
          cases hl
        · rw [AList.lookup_erase_ne hn] at hl
          exact absurd (Option.some.inj (((h.held n c).mp hl).1.symm.trans hname)) hn
      · intro hr
        exact absurd (.inr rfl) hr.2
    · have hothers : (removeConnectionInLoop c (s.called (.removeConnectionInLoop c))).server.connections.lookup n =
          some d ↔ s.server.connections.lookup n = some d := by
        rw [heq]
        exact h.lookup_removed hk hdc n
      rw [hothers, h.held]
      simp [hdc]

theorem Inv.registered {s : System L P} (h : Inv addr name s) : Registered s := by
  refine ⟨h.held, ?_, fun c d n hdc => removeConnectionInLoop_others h c d n hdc⟩
  rw [List.nodup_iff_getElem?_ne_getElem?]
  intro c d hcd hd he
  rw [List.getElem?_map, List.getElem?_map] at he
  have hn : nameOf s d = some (s.conns.map Conn.name)[d] := by
    rw [nameOf, ← List.getElem?_map, List.getElem?_eq_getElem hd]
  exact absurd (h.injective (he.trans hn) hn) (Nat.ne_of_lt hcd)

theorem construct_inv (loop : L) (loops : List L) (callback : Bool) :
    Inv addr name (System.start (construct loop loops addr name callback) : System L P) := by
  refine ⟨⟨rfl, rfl⟩, ?_, rfl, ?_, ?_, ?_, ?_⟩
  · exact (by decide : 0 < 2 ^ 31 - 1)
  · intro c n hc
    cases hc
  · intro c hc
    cases hc
  · rintro c ⟨stage, hm⟩
    cases hm
  · intro n c
    constructor
    · intro hl
      cases hl
    · rintro ⟨hn, _⟩
      cases hn

variable [DecidableEq L]

theorem removeConnection_inv {s : System L P} (h : Inv addr name s) (c : Nat) :
    Inv addr name (removeConnection c s) := by
  simp only [removeConnection]
  split
  · exact h
  · rename_i k hk
    have hc : c < s.conns.length := (List.getElem?_eq_some_iff.mp hk).1
    split
    · exact removeConnectionInLoop_inv h hc
    · refine h.frame rfl (fun _ => Iff.rfl) rfl (fun _ => rfl) fun d hd => ?_
      rcases List.mem_append.mp hd with hd | hd
      · exact h.queued d hd
      · rw [List.mem_singleton.mp hd]
        exact hc

theorem newConnection_conns (sockfd : Int) (self : P) (s : System L P) :
    ∃ k : Conn L P, (newConnection sockfd self s).conns = s.conns ++ [k] ∧
      k.name = connName s.server.name s.server.ipPort s.server.nextConnId.val := by
  refine ⟨_, rfl, ?_⟩
  split
  · rfl
  · rfl

theorem nameOf_newConnection (sockfd : Int) (self : P) (s : System L P) (c : Nat) :
    nameOf (newConnection sockfd self s) c =
      if c = s.conns.length then some (connName s.server.name s.server.ipPort s.server.nextConnId.val)
      else nameOf s c := by
  obtain ⟨k, hconns, hname⟩ := newConnection_conns sockfd self s
  rw [← hname, nameOf, hconns]
  split
  · rename_i hc
    rw [hc, List.getElem?_concat_length, Option.map_some]
  · rename_i hc
    rw [nameOf]
    by_cases hlt : c < s.conns.length
    · rw [List.getElem?_append_left hlt]
    · rw [List.getElem?_eq_none (by simp; omega), List.getElem?_eq_none (by omega)]

theorem newConnection_inv {s : System L P} (h : Inv addr name s) (hroom : s.conns.length + 1 < 2 ^ 31 - 1)
    (sockfd : Int) (self : P) : Inv addr name (newConnection sockfd self s) := by
  have hlength : (newConnection sockfd self s).conns.length = s.conns.length + 1 := by simp [newConnection]
  have hname : connName s.server.name s.server.ipPort s.server.nextConnId.val =
      connName name (InetAddress.toIpPort addr) ((s.conns.length + 1 : Nat) : Int) := by
    rw [h.server.1, h.server.2, h.ids]
    rfl
  have hnames : ∀ c n, nameOf (newConnection sockfd self s) c = some n →
      n = connName name (InetAddress.toIpPort addr) ((c + 1 : Nat) : Int) := by
    intro c n hc
    rw [nameOf_newConnection] at hc
    split at hc
    · rename_i hcl
      rw [← Option.some.inj hc, hname, hcl]
    · exact h.names c n hc
  refine ⟨h.server, by omega, ?_, hnames, ?_, ?_, ?_⟩
  · have hid := h.ids
    have hsucc : (newConnection sockfd self s).server.nextConnId.val = (s.server.nextConnId.val + 1).bmod (2 ^ 32) := rfl
    rw [hsucc, hlength, hid, Int.bmod_eq_of_le]
    · omega
    · omega
    · omega
  · intro c hc
    rw [hlength]
    exact Nat.lt_succ_of_lt (h.queued c hc)
  · intro c hc
    rw [hlength]
    exact Nat.lt_succ_of_lt (h.ran c hc)
  · intro n c
    have hlookup : (newConnection sockfd self s).server.connections = s.server.connections.insert
        (connName s.server.name s.server.ipPort s.server.nextConnId.val) s.conns.length := rfl
    have hran : Ran (newConnection sockfd self s) c ↔ Ran s c := Iff.rfl
    rw [hlookup, nameOf_newConnection, hran]
    by_cases hn : n = connName s.server.name s.server.ipPort s.server.nextConnId.val
    · rw [← hn, AList.lookup_insert]
      split
      · rename_i hc
        subst c
        have hnew : ¬ Ran s s.conns.length := fun hr => absurd (h.ran _ hr) (lt_irrefl _)
        exact ⟨fun _ => ⟨rfl, hnew⟩, fun _ => rfl⟩
      · rename_i hc
        constructor
        · intro he
          exact absurd (Option.some.inj he).symm hc
        · rintro ⟨hcn, _⟩
          have hlt := lt_of_nameOf hcn
          have hsame := (h.names c n hcn).symm.trans (hn.trans hname)
          have hid := connName_injective name addr (show c + 1 < 2 ^ 31 by omega)
            (show s.conns.length + 1 < 2 ^ 31 by omega) hsame
          omega
    · rw [AList.lookup_insert_ne hn, h.held]
      split
      · rename_i hc
        subst c
        constructor
        · rintro ⟨hold, _⟩
          exact absurd (lt_of_nameOf hold) (lt_irrefl _)
        · rintro ⟨hnew, _⟩
          exact absurd (Option.some.inj hnew).symm hn
      · exact Iff.rfl

/-- A step of a run that serves, and accepts no more connections than there are ids. -/
def Served (s : System L P) : System.Event P → Prop
  | .accept _ _ => s.conns.length + 1 < 2 ^ 31 - 1
  | e => e.ofDestructor = false

theorem step_inv (s : System L P) (e : System.Event P) (h : Inv addr name s) (he : Served s e) :
    Inv addr name (s.next e) := by
  cases e with
  | accept sockfd self => exact newConnection_inv h he sockfd self
  | established c => exact h.modify (f := Conn.connectEstablished) (fun _ => rfl) rfl (fun _ => Iff.rfl) rfl rfl
  | conn c e => exact h.modify (f := Conn.step e) (fun _ => rfl) rfl (fun _ => Iff.rfl) rfl rfl
  | closeCallback c =>
      have hback : Inv addr name (System.called (.removeConnection c)
          { s with conns := s.conns.modify c fun k => { k with closing := false } }) := by
        refine h.modify (c := c) (f := fun k => { k with closing := false }) (fun _ => rfl) rfl (fun d => ?_) rfl rfl
        simp [Ran, System.called]
      exact removeConnection_inv hback c
  | removal =>
      simp only [System.next]
      split
      · exact h
      · rename_i c cs hr
        have hq : Inv addr name { s with removals := cs } := h.frame rfl (fun _ => Iff.rfl) rfl (fun _ => rfl)
          fun d hd => h.queued d (hr ▸ List.mem_cons_of_mem c hd)
        exact removeConnectionInLoop_inv hq (h.queued c (hr ▸ List.mem_cons_self))
  | destroy | destroyItem c | destroyed => cases he

def isAccept : System.Event P → Bool
  | .accept _ _ => true
  | _ => false

theorem length_removeConnection (c : Nat) (s : System L P) :
    (removeConnection c s).conns.length = s.conns.length := by
  simp only [removeConnection]
  split
  · rfl
  · split
    · exact length_removeConnectionInLoop c _
    · rfl

theorem length_next (s : System L P) {e : System.Event P} (he : e.ofDestructor = false) :
    (s.next e).conns.length = s.conns.length + if isAccept e then 1 else 0 := by
  cases e with
  | accept sockfd self =>
      obtain ⟨k, hconns, _⟩ := newConnection_conns sockfd self s
      rw [System.next, hconns, List.length_append]
      rfl
  | established c | conn c e => exact List.length_modify ..
  | closeCallback c => exact (length_removeConnection c _).trans (List.length_modify ..)
  | removal =>
      simp only [System.next]
      split
      · rfl
      · exact length_removeConnectionInLoop _ _
  | destroy | destroyItem c | destroyed => cases he

theorem meets_served {s : System L P} {es : List (System.Event P)}
    (hroom : s.conns.length + es.countP isAccept < 2 ^ 31 - 1) (hserve : ∀ e ∈ es, e.ofDestructor = false) :
    Meets System.next Served s es := by
  induction es generalizing s with
  | nil => trivial
  | cons e es ih =>
      rw [List.countP_cons] at hroom
      have he := hserve e List.mem_cons_self
      refine ⟨?_, ih ?_ fun d hd => hserve d (List.mem_cons_of_mem e hd)⟩
      · cases e with
        | accept sockfd self =>
            have hone : (if isAccept (.accept sockfd self : System.Event P) then 1 else 0) = 1 := rfl
            show s.conns.length + 1 < 2 ^ 31 - 1
            omega
        | established | conn | closeCallback | removal | destroy | destroyItem | destroyed => exact he
      · rw [length_next s he]
        omega

end Webserver.Registry
