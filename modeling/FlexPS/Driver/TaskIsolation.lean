import FlexPS.Driver.EngineTasks

/-! # Tasks do not see each other's messages -/

namespace FlexPS

open Machine Epochs

variable {Val : Type} {n : Nat}

namespace EngineState

variable {cluster : Cluster n} {tasks : List (EngineTask n)} {state state' : EngineState Val n}
  {i : Fin n} {posted : Posted Val}

/-- The task of the last reset of a table that has entered the queue of a server. -/
def newest (state : EngineState Val n) (server : Tid) (table : UInt32) : Option Nat :=
  last (Posted.renews table) (current (state.registered server) table) (state.serverQueue server)

variable (cluster) in
/-- No message meets the reset of a later task: when a reset enters the queue of a server,
    nothing that another node has sent to this server and table is on its way, and when a
    worker sends a message, no reset of a later task has entered the queue it goes to. -/
def Quiet (state : EngineState Val n) : EngineInput Val n → Prop
  | .receive sender recver => match (state.links sender recver).inFlight with
      | .data posted :: _ => posted.isReset → posted.msg.recver ∈ cluster.servers recver →
          ∀ i ≠ recver, ∀ p ∈ state.inbound cluster i posted.msg.recver,
            p.msg.modelId ≠ posted.msg.modelId
      | _ => True
  | .work i msg => ∀ t ∈ state.newest msg.recver msg.modelId, t ≤ state.task i
  | _ => True

section Steps

theorem forall_main {P : Fin n → EngineMain → Prop} {main : Fin n → EngineMain} {m : EngineMain}
    (old : ∀ k, P k (main k)) (new : P i m) (k : Fin n) : P k (Function.update main i m k) :=
  (Function.forall_update_iff _ P).mpr ⟨new, fun k _ => old k⟩ k

/-- The main thread goes on without a change of the round. -/
theorem setMain_inv (inv : Inv cluster tasks state) {m : EngineMain}
    (entered : m.entered = (state.main i).entered) (returned : m.returned = (state.main i).returned)
    (main : MainInv cluster tasks i (state.task i) state.registered (state.resetsTo cluster)
      (state.replies cluster i) m) : Inv cluster tasks (state.setMain i m) :=
  { inv with
    entered := forall_main (P := fun k m => state.entered k = state.task k + m.entered) inv.entered
      (entered ▸ inv.entered i)
    returned := forall_main (P := fun k m => state.returned k = state.task k + m.returned) inv.returned
      (returned ▸ inv.returned i)
    mains := forall_main (P := fun k m => MainInv cluster tasks k (state.task k) state.registered
      (state.resetsTo cluster) (state.replies cluster k) m) inv.mains main }

theorem resetsTo_push (server : Tid) : (state.push i posted).resetsTo cluster server =
    state.resetsTo cluster server ++
      if cluster.nodeOf server = i ∧ posted.msg.recver = server ∧ posted.isReset then [posted] else [] := by
  simp only [resetsTo, own, inbound_push]
  by_cases here : cluster.nodeOf server = i ∧ posted.msg.recver = server
  · by_cases reset : posted.isReset <;> simp [push, here, reset]
  · rw [if_neg here, if_neg fun both => here ⟨both.1, both.2.1⟩, List.append_nil, List.append_nil]
    rfl

/-- The servers, when a message is pushed at a node. -/
theorem servers_push (inv : Inv cluster tasks state)
    (fresh : ∀ j, posted.msg.recver ∈ cluster.servers j → posted.Known tasks ∧
      (posted.isReset → i = j ∧ state.returned j ≤ state.task j) ∧
      (¬ posted.isReset → last (Posted.renews posted.msg.modelId)
        (current (state.registered posted.msg.recver) posted.msg.modelId)
        (state.serverQueue posted.msg.recver ++
          if i = j then state.inbound cluster j posted.msg.recver else []) = some posted.task))
    (j : Fin n) (server : Tid) (member : server ∈ cluster.servers j) :
    TaskInv tasks j state.task state.entered state.returned (state.registered server)
      (state.serverQueue server) fun k => (state.push i posted).inbound cluster k server := by
  simp only [inbound_push]
  by_cases same : posted.msg.recver = server
  · subst same
    obtain ⟨known, reset, work⟩ := fresh j member
    simpa using (inv.servers j _ member).push known reset work
  · simpa [same] using inv.servers j server member

theorem routed_push (inv : Inv cluster tasks state)
    (home : posted.isReset → cluster.nodeOf posted.msg.recver = i) (k : Fin n) :
    ∀ p ∈ (state.push i posted).sendQueue k, p.isReset → cluster.nodeOf p.msg.recver = k := by
  intro p mem
  simp only [push, Function.update_apply] at mem
  split at mem
  · next same =>
      subst same
      rcases List.mem_append.mp mem with old | new
      · exact inv.routed k p old
      · obtain rfl := List.mem_singleton.mp new
        exact home
  · exact inv.routed k p mem

theorem work_inv (inv : Inv cluster tasks state) {workers : List Tid} {msg : Message Val}
    (running : state.main i = .running workers)
    (may : state.MaySend cluster tasks i workers msg) (quiet : state.Quiet cluster (.work i msg)) :
    Inv cluster tasks (state.push i ⟨msg, state.task i⟩) := by
  obtain ⟨sender, flag, uses, to_server⟩ := may
  have work : ¬ (⟨msg, state.task i⟩ : Posted Val).isReset := by
    rcases flag with flag | flag | flag <;> simp [Posted.isReset, flag]
  have main := inv.mains i
  rw [running] at main
  have started : state.returned i = state.task i + 1 := by rw [inv.returned i, running]; rfl
  have resets_eq : (state.push i ⟨msg, state.task i⟩).resetsTo cluster = state.resetsTo cluster := by
    funext server
    rw [resetsTo_push, if_neg fun both => work both.2.2, List.append_nil]
  refine { inv with
    servers := servers_push inv ?_
    mains := fun k => ?_
    routed := routed_push inv fun reset => absurd reset work }
  · intro j member
    have known : (⟨msg, state.task i⟩ : Posted Val).Known tasks := by
      rw [Posted.Known, if_neg work]
      exact main.1 _ sender
    refine ⟨known, fun reset => absurd reset work, fun _ => ?_⟩
    by_cases here : i = j
    · subst here
      rw [if_pos rfl]
      exact (inv.servers i _ member).running (by omega) msg.modelId uses
    · rw [if_neg here, List.append_nil]
      have agreement := inv.counted.inStep.agreement i j
      obtain ⟨t, reached, newest⟩ :=
        (inv.servers j _ member).latest msg.modelId (state.task i) uses (by omega)
      obtain rfl : t = state.task i := le_antisymm (quiet t newest) reached
      exact newest
  · rw [resets_eq, replies_push, if_neg fun both => work both.2.1, List.append_nil]
    exact inv.mains k

theorem pushReset_inv (inv : Inv cluster tasks state) {table : UInt32} {id server : Tid}
    {todo : List Tid} {count : Nat} {rest : List UInt32}
    (main : state.main i = .initTable table id (server :: todo) count rest) :
    Inv cluster tasks ((state.setMain i (.initTable table id todo count rest)).push i
      ⟨resetWorkerMsg id server table (idsOf tasks (state.task i)), state.task i⟩) := by
  obtain ⟨done, split, home, initializing⟩ : MainInv cluster tasks i _ _ _ _ (.initTable ..) :=
    main ▸ inv.mains i
  have server_mem : server ∈ cluster.servers i := initializing.todo_known server List.mem_cons_self
  have server_home : cluster.nodeOf server = i := cluster.servers_node i server server_mem
  have not_started : state.returned i = state.task i := by rw [inv.returned i, main]; rfl
  obtain ⟨reset, reset_eq⟩ : ∃ reset, reset = (⟨resetWorkerMsg id server table
    (idsOf tasks (state.task i)), state.task i⟩ : Posted Val) := ⟨_, rfl⟩
  have is_reset : reset.isReset := by rw [reset_eq]; rfl
  have target : reset.msg.recver = server := by rw [reset_eq]; rfl
  have pushed := initializing.pushReset (show reset.msg.modelId = table by rw [reset_eq]; rfl)
    (show reset.task = state.task i by rw [reset_eq]) (show reset.msg.sender = id by rw [reset_eq]; rfl)
  have resets_eq : ∀ s ∈ cluster.servers i, (state.push i reset).resetsTo cluster s =
      Function.update (state.resetsTo cluster) server (state.resetsTo cluster server ++ [reset]) s := by
    intro s member
    rw [resetsTo_push, target, Function.update_apply, cluster.servers_node i s member]
    by_cases same : s = server
    · subst same
      simp [is_reset]
    · simp [same, Ne.symm same]
  have replies_eq : ∀ k, (state.push i reset).replies cluster k = state.replies cluster k := by
    intro k
    rw [replies_push, target, if_neg, List.append_nil]
    rintro ⟨rfl, -, other⟩
    exact other server_mem
  rw [← reset_eq]
  refine ⟨inv.counted, ?_, ?_, servers_push inv ?_, ?_, ?_, inv.linked, inv.serving⟩
  · exact forall_main (P := fun k m => state.entered k = state.task k + m.entered) inv.entered
      (by rw [inv.entered i, main]; rfl)
  · exact forall_main (P := fun k m => state.returned k = state.task k + m.returned) inv.returned
      (by rw [inv.returned i, main]; rfl)
  · intro j member
    rw [target] at member
    have same : i = j := server_home.symm.trans (cluster.servers_node j server member)
    refine ⟨?_, fun _ => ⟨same, same ▸ not_started.le⟩, fun work => absurd is_reset work⟩
    rw [Posted.Known, if_pos is_reset, reset_eq]
    rfl
  · intro k
    change MainInv cluster tasks k (state.task k) state.registered ((state.push i reset).resetsTo cluster)
      ((state.push i reset).replies cluster k) _
    rw [replies_eq]
    by_cases same : k = i
    · subst same
      have here : ((state.setMain k (.initTable table id todo count rest)).push k reset).main k =
          .initTable table id todo count rest := Function.update_self ..
      have now : MainInv cluster tasks k (state.task k) state.registered
          (Function.update (state.resetsTo cluster) server (state.resetsTo cluster server ++ [reset]))
          (state.replies cluster k) (.initTable table id todo count rest) :=
        ⟨done, split, home, pushed⟩
      rw [here]
      exact now.congr fun s member => ⟨rfl, resets_eq s member⟩
    · have there : ((state.setMain i (.initTable table id todo count rest)).push i reset).main k =
          state.main k := Function.update_of_ne same ..
      rw [there]
      refine (inv.mains k).congr fun s member => ⟨rfl, ?_⟩
      rw [resetsTo_push, cluster.servers_node k s member, if_neg fun both => same both.1, List.append_nil]
  · have routed := routed_push inv (i := i) fun (_ : reset.isReset) => target ▸ server_home
    exact routed

theorem initTable_inv (inv : Inv cluster tasks state) {table : UInt32} {rest : List UInt32} {id : Tid}
    (main : state.main i = .tables (table :: rest)) (home : cluster.nodeOf id = i)
    (other : id ∉ cluster.servers i) : Inv cluster tasks (if cluster.servers i = [] then
      state.setMain i (.tables rest)
    else state.setMain i
      (.initTable table id (cluster.servers i) (cluster.servers i).length rest)) := by
  obtain ⟨done, split, settled⟩ : MainInv cluster tasks i _ _ _ _ (.tables ..) := main ▸ inv.mains i
  by_cases none : cluster.servers i = []
  · rw [if_pos none]
    refine setMain_inv inv (by rw [main]; rfl) (by rw [main]; rfl)
      ⟨done ++ [table], by simp [split], ?_, settled.no_reset, settled.no_reply⟩
    intro T _ server member
    rw [none] at member
    cases member
  · rw [if_neg none]
    exact setMain_inv inv (by rw [main]; rfl) (by rw [main]; rfl)
      ⟨done, split, home, settled.initTable other⟩

theorem tableDone_inv (inv : Inv cluster tasks state) {table : UInt32} {id : Tid} {rest : List UInt32}
    (main : state.main i = .initTable table id [] 0 rest) :
    Inv cluster tasks (state.setMain i (.tables rest)) := by
  obtain ⟨done, split, home, initializing⟩ : MainInv cluster tasks i _ _ _ _ (.initTable ..) :=
    main ▸ inv.mains i
  exact setMain_inv inv (by rw [main]; rfl) (by rw [main]; rfl)
    ⟨done ++ [table], by simp [split], initializing.finish⟩

theorem finish_inv (inv : Inv cluster tasks state) {workers : List Tid} (worker : Tid)
    (main : state.main i = .running workers) :
    Inv cluster tasks (state.setMain i (.running (workers.erase worker))) := by
  obtain ⟨known, settled⟩ : MainInv cluster tasks i _ _ _ _ (.running ..) := main ▸ inv.mains i
  exact setMain_inv inv (by rw [main]; rfl) (by rw [main]; rfl)
    ⟨fun w mem => known w (List.mem_of_mem_erase mem), settled⟩

/-- A server whose node has nothing on its way to it is in the task of its node. -/
theorem last_of_settled {done : List UInt32} {t : Nat} {replies : List (Posted Val)} {server : Tid}
    {table : UInt32}
    (settled : Settled (cluster.servers i) t done state.registered (state.resetsTo cluster) replies)
    (member : server ∈ cluster.servers i) (mem : table ∈ done) :
    last (Posted.renews table) (current (state.registered server) table) (state.serverQueue server) =
        some t ∧
      last (Posted.renews table) (current (state.registered server) table)
        (state.serverQueue server ++ state.inbound cluster i server) = some t := by
  have none : ∀ posted ∈ state.serverQueue server ++ state.inbound cluster i server,
      posted.renews table = none := by
    intro posted posted_mem
    have empty := settled.no_reset server member
    rw [resetsTo, own, cluster.servers_node i server member, List.filter_eq_nil_iff] at empty
    exact Posted.renews_of_work (empty posted posted_mem)
  have now := settled.done table mem server member
  constructor
  · rw [last_of_forall fun posted mem => none posted (List.mem_append_left _ mem), now]
  · rw [last_of_forall none, now]

theorem enterBarrier_inv (inv : Inv cluster tasks state) (main : state.main i = .tables []) :
    Inv cluster tasks { state.setMain i .inBarrier with
      mailboxes := Function.update state.mailboxes i (state.mailboxes i).enter
      entered := Rounds.bump state.entered i } := by
  obtain ⟨done, split, settled⟩ : MainInv cluster tasks i _ _ _ _ (.tables ..) := main ▸ inv.mains i
  rw [List.append_nil] at split
  have entered : state.entered i = state.task i := by rw [inv.entered i, main]; rfl
  have returned : state.returned i = state.task i := by rw [inv.returned i, main]; rfl
  refine { inv with
    counted := inv.counted.enter ((inv.counted.outside i).mpr (entered.trans returned.symm))
    entered := fun k => ?_
    returned := forall_main (P := fun k m => state.returned k = state.task k + m.returned) inv.returned
      returned
    servers := fun j server member => (inv.servers j server member).enter entered ?_
    mains := forall_main (P := fun k m => MainInv cluster tasks k (state.task k) state.registered
      (state.resetsTo cluster) (state.replies cluster k) m) inv.mains ?_ }
  · by_cases same : k = i
    · subst same
      simp [setMain, EngineMain.entered, entered]
    · simpa [setMain, same, Rounds.bump_of_ne same] using inv.entered k
  · rintro rfl table uses
    exact (last_of_settled settled member (split ▸ uses)).1
  · change Settled _ _ (tablesOf tasks (state.task i)) _ _ _
    exact split ▸ settled

/-- A change of a mailbox that is neither a call of `Barrier` nor its return. -/
theorem mailbox_inv (inv : Inv cluster tasks state) {mailboxes : Fin n → Mailbox n}
    (counted : BarrierState.Counted mailboxes (barriersOn state.links) state.entered state.returned) :
    Inv cluster tasks { state with mailboxes := mailboxes } :=
  { inv with counted }

theorem leaveBarrier_inv (inv : Inv cluster tasks state) (testing : (state.mailboxes i).caller = .testing)
    (enough : n ≤ (state.mailboxes i).barrierCount) :
    Inv cluster tasks { state.setMain i (.running ((tasks[state.task i]?.map (·.threads i)).getD [])) with
      mailboxes := Function.update state.mailboxes i ⟨(state.mailboxes i).barrierCount - n, .outside⟩
      returned := Rounds.bump state.returned i } := by
  have inside : state.entered i ≠ state.returned i := by
    rw [Ne, ← inv.counted.outside i, testing]
    nofun
  have main : state.main i = .inBarrier := by
    rw [inv.entered i, inv.returned i] at inside
    cases main : state.main i <;> simp [main, EngineMain.entered, EngineMain.returned] at inside ⊢
  have settled : MainInv cluster tasks i _ _ _ _ .inBarrier := main ▸ inv.mains i
  have entered : state.entered i = state.task i + 1 := by rw [inv.entered i, main]; rfl
  have returned : state.returned i = state.task i := by rw [inv.returned i, main]; rfl
  refine { inv with
    counted := inv.counted.pass testing enough
    entered := forall_main (P := fun k m => state.entered k = state.task k + m.entered) inv.entered
      entered
    returned := fun k => ?_
    servers := fun j server member => (inv.servers j server member).leave ?_
    mains := forall_main (P := fun k m => MainInv cluster tasks k (state.task k) state.registered
      (state.resetsTo cluster) (state.replies cluster k) m) inv.mains ⟨?_, settled⟩ }
  · by_cases same : k = i
    · subst same
      simp [setMain, EngineMain.returned, returned]
    · simpa [setMain, same, Rounds.bump_of_ne same] using inv.returned k
  · rintro rfl table uses
    exact (last_of_settled settled member uses).2
  · intro worker mem
    unfold idsOf
    cases found : tasks[state.task i]? with
    | none => simp [found] at mem
    | some task =>
        simp only [found, Option.map_some, Option.getD_some] at mem ⊢
        exact List.mem_flatMap.mpr ⟨i, List.mem_finRange i, mem⟩

theorem join_inv (inv : Inv cluster tasks state) (main : state.main i = .running []) :
    Inv cluster tasks { state.setMain i (startTask tasks (state.task i + 1)) with
      task := Rounds.bump state.task i } := by
  obtain ⟨-, settled⟩ : MainInv cluster tasks i _ _ _ _ (.running ..) := main ▸ inv.mains i
  have entered : state.entered i = state.task i + 1 := by rw [inv.entered i, main]; rfl
  have returned : state.returned i = state.task i + 1 := by rw [inv.returned i, main]; rfl
  refine { inv with
    entered := fun k => ?_
    returned := fun k => ?_
    servers := fun j server member => (inv.servers j server member).join returned
    mains := fun k => ?_ }
  · by_cases same : k = i
    · subst same
      simp [setMain, startTask, EngineMain.entered, entered]
    · simpa [setMain, same, Rounds.bump_of_ne same] using inv.entered k
  · by_cases same : k = i
    · subst same
      simp [setMain, startTask, EngineMain.returned, returned]
    · simpa [setMain, same, Rounds.bump_of_ne same] using inv.returned k
  · change MainInv cluster tasks k (Rounds.bump state.task i k) state.registered (state.resetsTo cluster)
      (state.replies cluster k) (Function.update state.main i _ k)
    by_cases same : k = i
    · subst same
      rw [Function.update_self, Rounds.bump_same]
      exact ⟨[], rfl, by simp, settled.no_reset, settled.no_reply⟩
    · rw [Function.update_of_ne same, Rounds.bump_of_ne same]
      exact inv.mains k

theorem barriersOn_set (links : Fin n → Fin n → Link (EnginePacket Val)) (i j : Fin n)
    (link : Link (EnginePacket Val)) : barriersOn (Link.set links i j link) =
      Function.update (barriersOn links) i (Function.update (barriersOn links i) j
        (link.inFlight.countP EnginePacket.isBarrier)) :=
  Link.countP_set EnginePacket.isBarrier links i j link

/-- Data does not matter to the counting of barrier messages. -/
theorem barriersOn_data {links : Fin n → Fin n → Link (EnginePacket Val)} {i j : Fin n}
    {link : Link (EnginePacket Val)}
    (same : link.inFlight.countP EnginePacket.isBarrier = barriersOn links i j) :
    barriersOn (Link.set links i j link) = barriersOn links := by
  rw [barriersOn_set, same, Function.update_eq_self, Function.update_eq_self]

theorem sendBarrier_inv (inv : Inv cluster tasks state) {j : Fin n} {rest : List (Fin n)}
    (sending : (state.mailboxes i).caller = .sending (j :: rest)) :
    Inv cluster tasks { state with
      mailboxes := Function.update state.mailboxes i ((state.mailboxes i).sent rest)
      links := Link.set state.links i j ((state.links i j).send .barrier) } := by
  have counted := inv.counted.send sending
  have one_more : ((state.links i j).send .barrier).inFlight.countP EnginePacket.isBarrier =
      barriersOn state.links i j + 1 := by
    simp [Link.send, barriersOn, EnginePacket.isBarrier]
  have same : ∀ k l, onLink (Link.set state.links i j ((state.links i j).send .barrier)) k l =
      onLink state.links k l := by
    intro k l
    rw [onLink_send]
    split <;> simp [EnginePacket.posted]
  have inbound_eq : ∀ k server, ({ state with
      mailboxes := Function.update state.mailboxes i ((state.mailboxes i).sent rest)
      links := Link.set state.links i j ((state.links i j).send .barrier) } :
      EngineState Val n).inbound cluster k server = state.inbound cluster k server := by
    intro k server
    simp only [inbound, same]
  refine ⟨?_, inv.entered, inv.returned, ?_, ?_, inv.routed, ?_, inv.serving⟩
  · rw [barriersOn_set, one_more]
    exact counted
  · intro k server member
    simp only [inbound_eq]
    exact inv.servers k server member
  · intro k
    have kept := inv.mains k
    simp only [replies, ← same] at kept
    exact kept.congr fun server _ => ⟨rfl, by simp only [resetsTo, own, inbound_eq]⟩
  · intro k l
    simpa only [same] using inv.linked k l

theorem transmit_inv (inv : Inv cluster tasks state) {rest : List (Posted Val)}
    (next : state.sendQueue i = posted :: rest) :
    Inv cluster tasks { state with
      sendQueue := Function.update state.sendQueue i rest
      links := Link.set state.links i (cluster.nodeOf posted.msg.recver)
        ((state.links i (cluster.nodeOf posted.msg.recver)).send (.data posted)) } := by
  have home := inv.routed i posted (next ▸ List.mem_cons_self)
  refine ⟨?_, inv.entered, inv.returned, ?_, ?_, ?_, ?_, inv.serving⟩
  · rw [barriersOn_data (by simp [Link.send, barriersOn, EnginePacket.isBarrier])]
    exact inv.counted
  · intro k server member
    simp only [inbound_transmit next]
    exact inv.servers k server member
  · intro k
    simp only [replies_transmit next home]
    exact (inv.mains k).congr fun server _ =>
      ⟨rfl, by simp only [resetsTo, own, inbound_transmit next]⟩
  · intro k p mem
    simp only [Function.update_apply] at mem
    split at mem
    · next same =>
        subst same
        exact inv.routed k p (next ▸ List.mem_cons_of_mem _ mem)
    · exact inv.routed k p mem
  · intro k l p mem
    rw [onLink_send] at mem
    rcases List.mem_append.mp mem with old | new
    · exact inv.linked k l p old
    · split at new
      · next here =>
          obtain ⟨rfl, rfl⟩ := here
          obtain rfl : p = posted := by simpa [EnginePacket.posted] using new
          exact ⟨rfl, home⟩
      · cases new

/-- A node waits for the replies while a reset is on its way to one of its servers. -/
theorem initializing_of_reset (inv : Inv cluster tasks state) {server : Tid}
    (member : server ∈ cluster.servers i) (coming : posted ∈ state.own cluster server)
    (reset : posted.isReset) : ∃ table id todo count rest,
      state.main i = .initTable table id todo count rest ∧ posted.task = state.task i ∧
      posted.msg.sender = id ∧ cluster.nodeOf id = i ∧ id ∉ cluster.servers i := by
  have in_resets : posted ∈ state.resetsTo cluster server := List.mem_filter.mpr ⟨coming, reset⟩
  have busy : ∀ done, ¬ Settled (cluster.servers i) (state.task i) done state.registered
      (state.resetsTo cluster) (state.replies cluster i) := by
    intro done settled
    rw [settled.no_reset server member] at in_resets
    cases in_resets
  have main_inv := inv.mains i
  cases main : state.main i with
  | tables rest =>
      rw [main] at main_inv
      obtain ⟨done, -, settled⟩ := main_inv
      exact absurd settled (busy done)
  | inBarrier =>
      rw [main] at main_inv
      exact absurd main_inv (busy _)
  | running workers =>
      rw [main] at main_inv
      exact absurd main_inv.2 (busy _)
  | initTable table id todo count rest =>
      rw [main] at main_inv
      obtain ⟨done, -, home, initializing⟩ := main_inv
      obtain ⟨-, task, sender⟩ := initializing.reset_of server member posted in_resets
      exact ⟨table, id, todo, count, rest, rfl, task, sender, home, initializing.id_other⟩

section Receive

variable {j k : Fin n} {rest : List (EnginePacket Val)}

theorem linked_receive (inv : Inv cluster tasks state) {packet : EnginePacket Val}
    (next : (state.links k j).inFlight = packet :: rest) (l m : Fin n) :
    ∀ p ∈ onLink (Link.set state.links k j (state.links k j).receive) l m,
      cluster.nodeOf p.msg.recver = m ∧ (p.isReset → m = l) := by
  intro p mem
  refine inv.linked l m p ?_
  rw [onLink_receive next]
  exact List.mem_append_right _ mem

theorem receiveBarrier_inv (inv : Inv cluster tasks state)
    (next : (state.links k j).inFlight = .barrier :: rest) :
    Inv cluster tasks { state with
      links := Link.set state.links k j (state.links k j).receive
      mailboxes := Function.update state.mailboxes j (state.mailboxes j).receiveBarrier } := by
  have count : barriersOn state.links k j = rest.countP EnginePacket.isBarrier + 1 := by
    rw [barriersOn, next, List.countP_cons_of_pos rfl]
  have inbound_eq : ∀ l server, ({ state with
      links := Link.set state.links k j (state.links k j).receive
      mailboxes := Function.update state.mailboxes j (state.mailboxes j).receiveBarrier } :
      EngineState Val n).inbound cluster l server = state.inbound cluster l server := by
    intro l server
    rw [inbound_receive next (fun _ same => by cases same) l]
    simp [EnginePacket.posted, inbound]
  refine ⟨?_, inv.entered, inv.returned, ?_, ?_, inv.routed, linked_receive inv next, inv.serving⟩
  · have less : (state.links k j).receive.inFlight.countP EnginePacket.isBarrier =
        barriersOn state.links k j - 1 := by
      rw [Link.receive_eq next, count, Nat.add_sub_cancel]
    rw [barriersOn_set, less]
    exact inv.counted.deliver (by omega)
  · intro l server member
    simp only [inbound_eq]
    exact inv.servers l server member
  · intro l
    have kept := inv.mains l
    rw [replies_receive next (fun _ same => by cases same) l] at kept
    simp only [EnginePacket.posted, Option.toList_none, List.filter_nil, ite_self, List.nil_append]
      at kept
    exact kept.congr fun server _ => ⟨rfl, by simp only [resetsTo, own, inbound_eq]⟩

/-- What the receiver thread does with data. -/
theorem deliver_cases (delivered : state.deliver cluster j posted = .ok state') :
    (posted.msg.recver ∈ cluster.servers j ∧ state' = { state with
      serverQueue := Function.update state.serverQueue posted.msg.recver
        (state.serverQueue posted.msg.recver ++ [posted]) }) ∨
    (posted.msg.recver ∉ cluster.servers j ∧
      ((∃ table id todo count rest, state.main j = .initTable table id todo count rest ∧
          posted.isReset ∧ state' = state.setMain j (.initTable table id todo (count - 1) rest)) ∨
        state' = state ∧ ∀ table id todo count rest,
          state.main j = .initTable table id todo count rest → posted.msg.recver ≠ id)) := by
  unfold deliver at delivered
  by_cases member : posted.msg.recver ∈ cluster.servers j
  · rw [if_pos member] at delivered
    exact .inl ⟨member, (Except.ok.inj delivered).symm⟩
  · rw [if_neg member] at delivered
    refine .inr ⟨member, ?_⟩
    cases main : state.main j with
    | initTable table id todo count rest =>
        simp only [main] at delivered
        by_cases here : posted.msg.recver = id
        · rw [if_pos here] at delivered
          split at delivered
          · cases delivered
          · next flag =>
              split at delivered
              · cases delivered
              · have reset : posted.isReset := by simpa [Posted.isReset] using flag
                exact .inl ⟨table, id, todo, count, rest, rfl, reset, (Except.ok.inj delivered).symm⟩
        · rw [if_neg here] at delivered
          refine .inr ⟨(Except.ok.inj delivered).symm, fun _ _ _ _ _ same => ?_⟩
          cases same
          exact here
    | tables | inBarrier | running =>
        simp only [main] at delivered
        exact .inr ⟨(Except.ok.inj delivered).symm, nofun⟩

theorem deliver_registered (delivered : state.deliver cluster j posted = .ok state') :
    state'.registered = state.registered := by
  rcases deliver_cases delivered with ⟨-, rfl⟩ | ⟨-, ⟨_, _, _, _, _, -, -, rfl⟩ | ⟨rfl, -⟩⟩ <;> rfl

/-- What a step that only takes data from a link changes. -/
theorem receiveData_inbound (inv : Inv cluster tasks state)
    (next : (state.links k j).inFlight = .data posted :: rest) (l : Fin n) (server : Tid) :
    state.inbound cluster l server =
      (if l = k ∧ posted.msg.recver = server then [posted] else []) ++ ({ state with
        links := Link.set state.links k j (state.links k j).receive } :
        EngineState Val n).inbound cluster l server := by
  have on_link : posted ∈ onLink state.links k j := by simp [onLink, next, EnginePacket.posted]
  rw [inbound_receive next (fun p same => by cases same; exact (inv.linked k j posted on_link).1) l]
  by_cases same : l = k <;> by_cases here : posted.msg.recver = server <;>
    simp [same, here, EnginePacket.posted]

theorem receiveData_replies (inv : Inv cluster tasks state)
    (next : (state.links k j).inFlight = .data posted :: rest) (l : Fin n) :
    state.replies cluster l =
      (if l = k ∧ posted.isReset ∧ posted.msg.recver ∉ cluster.servers k then [posted] else []) ++
        ({ state with links := Link.set state.links k j (state.links k j).receive } :
          EngineState Val n).replies cluster l := by
  have on_link : posted ∈ onLink state.links k j := by simp [onLink, next, EnginePacket.posted]
  rw [replies_receive next (fun p same => by cases same; exact (inv.linked k j posted on_link).2) l]
  by_cases same : l = k <;>
    by_cases here : posted.isReset ∧ posted.msg.recver ∉ cluster.servers k <;>
      simp [same, here, EnginePacket.posted]

theorem receiveLink_counted (inv : Inv cluster tasks state)
    (next : (state.links k j).inFlight = .data posted :: rest) :
    BarrierState.Counted state.mailboxes
      (barriersOn (Link.set state.links k j (state.links k j).receive)) state.entered state.returned := by
  rw [barriersOn_data]
  · exact inv.counted
  · rw [Link.receive_eq next, barriersOn, next, List.countP_cons_of_neg (by nofun)]

/-- A message enters the queue of a server. -/
theorem receiveServer_inv (inv : Inv cluster tasks state)
    (next : (state.links k j).inFlight = .data posted :: rest)
    (quiet : state.Quiet cluster (.receive k j))
    (member : posted.msg.recver ∈ cluster.servers j) :
    Inv cluster tasks { state with
      links := Link.set state.links k j (state.links k j).receive
      serverQueue := Function.update state.serverQueue posted.msg.recver
        (state.serverQueue posted.msg.recver ++ [posted]) } := by
  have on_link : posted ∈ onLink state.links k j := by simp [onLink, next, EnginePacket.posted]
  obtain ⟨home, own_node⟩ := inv.linked k j posted on_link
  have server_inv := inv.servers j _ member
  have inbound_eq := receiveData_inbound inv next
  have replies_eq : ∀ l, state.replies cluster l = ({ state with
      links := Link.set state.links k j (state.links k j).receive } :
        EngineState Val n).replies cluster l := by
    intro l
    rw [receiveData_replies inv next l, if_neg, List.nil_append]
    rintro ⟨-, reset, other⟩
    exact other (own_node reset ▸ member)
  have front := inbound_eq k posted.msg.recver
  rw [if_pos ⟨rfl, rfl⟩, List.singleton_append] at front
  have foreign_work : k ≠ j → ¬ posted.isReset := fun other reset => other (own_node reset).symm
  refine ⟨receiveLink_counted inv next, inv.entered, inv.returned, ?_, ?_, inv.routed,
    linked_receive inv next, ?_⟩
  · intro l server server_mem
    by_cases same : server = posted.msg.recver
    · subst same
      obtain rfl : l = j := (cluster.servers_node l _ server_mem).symm.trans home
      simp only [Function.update_self]
      have received := server_inv.receive front (fun reset => ?_) fun reset => ?_
      · convert received using 1
        funext m
        rw [Function.update_apply]
        split
        · next same => subst same; rfl
        · next other =>
            have kept := inbound_eq m posted.msg.recver
            rw [if_neg fun both => other both.1, List.nil_append] at kept
            exact kept.symm
      · simp only [Quiet, next] at quiet
        exact quiet reset member
      · obtain rfl : l = k := own_node reset
        have coming : posted ∈ state.own cluster posted.msg.recver := by
          rw [own, home, front]
          exact List.mem_append_right _ List.mem_cons_self
        obtain ⟨_, _, _, _, _, main, task, -⟩ := initializing_of_reset inv member coming reset
        rw [inv.entered l, main, task]
        rfl
    · simp only [Function.update_of_ne same]
      have kept := inv.servers l server server_mem
      simp only [inbound_eq _ server, if_neg fun both : _ ∧ _ = server => same both.2.symm,
        List.nil_append] at kept
      exact kept
  · intro l
    have kept := inv.mains l
    rw [replies_eq l] at kept
    refine kept.congr fun server server_mem => ⟨rfl, ?_⟩
    by_cases same : server = posted.msg.recver
    · subst same
      simp only [resetsTo, own, Function.update_self, inbound_eq (cluster.nodeOf posted.msg.recver),
        and_true]
      by_cases here : cluster.nodeOf posted.msg.recver = k
      · rw [if_pos here, List.append_assoc]
        rfl
      · rw [if_neg here]
        simp [foreign_work fun same => here (home.trans same.symm), inbound]
    · simp only [resetsTo, own, Function.update_of_ne same, inbound_eq _ server]
      rw [if_neg fun both => same both.2.symm]
      rfl
  · intro server nonempty
    simp only [Function.update_apply] at nonempty
    split at nonempty
    · next same => exact same ▸ home.symm ▸ member
    · exact inv.serving server nonempty

/-- A message leaves a link for something else than a server of the node. -/
theorem receiveOther_inv (inv : Inv cluster tasks state)
    (next : (state.links k j).inFlight = .data posted :: rest)
    (other : posted.msg.recver ∉ cluster.servers j) {m : EngineMain}
    (entered : m.entered = (state.main j).entered) (returned : m.returned = (state.main j).returned)
    (main : MainInv cluster tasks j (state.task j) state.registered (state.resetsTo cluster)
      (({ state with links := Link.set state.links k j (state.links k j).receive } :
        EngineState Val n).replies cluster j) m) :
    Inv cluster tasks (({ state with
      links := Link.set state.links k j (state.links k j).receive } :
      EngineState Val n).setMain j m) := by
  have on_link : posted ∈ onLink state.links k j := by simp [onLink, next, EnginePacket.posted]
  obtain ⟨home, own_node⟩ := inv.linked k j posted on_link
  have inbound_eq : ∀ l, ∀ server ∈ cluster.servers l, ∀ m, ({ state with
      links := Link.set state.links k j (state.links k j).receive } :
      EngineState Val n).inbound cluster m server = state.inbound cluster m server := by
    intro l server member m
    have no_server : posted.msg.recver ≠ server := by
      rintro rfl
      exact other (home.symm.trans (cluster.servers_node l _ member) ▸ member)
    rw [receiveData_inbound inv next m server, if_neg fun both => no_server both.2, List.nil_append]
  refine ⟨receiveLink_counted inv next, ?_, ?_, ?_, fun l => ?_, inv.routed,
    linked_receive inv next, inv.serving⟩
  · exact forall_main (P := fun l m => state.entered l = state.task l + m.entered) inv.entered
      (entered ▸ inv.entered j)
  · exact forall_main (P := fun l m => state.returned l = state.task l + m.returned) inv.returned
      (returned ▸ inv.returned j)
  · intro l server member
    have kept := inv.servers l server member
    simp only [← inbound_eq l server member] at kept
    exact kept
  · have resets : ∀ server ∈ cluster.servers l, ({ state with
        links := Link.set state.links k j (state.links k j).receive } :
        EngineState Val n).resetsTo cluster server = state.resetsTo cluster server := by
      intro server member
      simp only [resetsTo, own, inbound_eq l server member]
    suffices kept : MainInv cluster tasks l (state.task l) state.registered (state.resetsTo cluster) _ _ from
      kept.congr fun server member => ⟨rfl, resets server member⟩
    by_cases same : l = j
    · subst same
      simp only [setMain, Function.update_self]
      exact main
    · have kept := inv.mains l
      rw [receiveData_replies inv next l, if_neg, List.nil_append] at kept
      · simp only [setMain, Function.update_of_ne same]
        exact kept
      · rintro ⟨rfl, reset, -⟩
        exact same (own_node reset).symm

theorem receiveData_inv (inv : Inv cluster tasks state)
    (next : (state.links k j).inFlight = .data posted :: rest)
    (quiet : state.Quiet cluster (.receive k j))
    (delivered : ({ state with links := Link.set state.links k j (state.links k j).receive } :
      EngineState Val n).deliver cluster j posted = .ok state') :
    Inv cluster tasks state' := by
  have on_link : posted ∈ onLink state.links k j := by simp [onLink, next, EnginePacket.posted]
  have own_node := (inv.linked k j posted on_link).2
  have main_inv := inv.mains j
  rw [receiveData_replies inv next j] at main_inv
  rcases deliver_cases delivered with
    ⟨member, rfl⟩ | ⟨other, ⟨table, id, todo, count, tables, main, reset, rfl⟩ | ⟨rfl, not_reply⟩⟩
  · exact receiveServer_inv inv next quiet member
  · obtain rfl := own_node reset
    rw [if_pos ⟨rfl, reset, other⟩, show state.main j = _ from main] at main_inv
    obtain ⟨done, split, home, initializing⟩ := main_inv
    exact receiveOther_inv inv next other (by rw [show state.main j = _ from main]; rfl)
      (by rw [show state.main j = _ from main]; rfl) ⟨done, split, home, initializing.reply⟩
  · have no_reply : ¬ (j = k ∧ posted.isReset ∧ posted.msg.recver ∉ cluster.servers k) := by
      intro reply
      rw [if_pos reply] at main_inv
      cases main : state.main j with
      | tables tables =>
          rw [main] at main_inv
          obtain ⟨done, -, settled⟩ := main_inv
          cases settled.no_reply
      | inBarrier =>
          rw [main] at main_inv
          cases main_inv.no_reply
      | running workers =>
          rw [main] at main_inv
          cases main_inv.2.no_reply
      | initTable table id todo count tables =>
          rw [main] at main_inv
          obtain ⟨done, -, home, initializing⟩ := main_inv
          exact not_reply _ _ _ _ _ main (initializing.reply_to posted List.mem_cons_self)
    rw [if_neg no_reply, List.nil_append] at main_inv
    have kept := receiveOther_inv inv next other rfl rfl main_inv
    rwa [setMain, show Function.update _ j (state.main j) = state.main from
      Function.update_eq_self ..] at kept

end Receive

section Serve

variable {server : Tid} {rest : List (Posted Val)}

theorem serve_servers (inv : Inv cluster tasks state)
    (next : state.serverQueue server = posted :: rest) (j : Fin n) (s : Tid)
    (member : s ∈ cluster.servers j) : TaskInv tasks j state.task state.entered state.returned
      (Function.update state.registered server
        (TaskInv.registeredBy posted (state.registered server)) s)
      (Function.update state.serverQueue server rest s) fun k => state.inbound cluster k s := by
  have kept := inv.servers j s member
  by_cases same : s = server
  · subst same
    rw [next] at kept
    simp only [Function.update_self]
    exact kept.serve
  · simp only [Function.update_of_ne same]
    exact kept

theorem serving_of_update (inv : Inv cluster tasks state)
    (next : state.serverQueue server = posted :: rest) (s : Tid)
    (nonempty : Function.update state.serverQueue server rest s ≠ []) :
    s ∈ cluster.servers (cluster.nodeOf s) := by
  rw [Function.update_apply] at nonempty
  split at nonempty
  · next same =>
      refine same ▸ inv.serving server ?_
      rw [next]
      nofun
  · exact inv.serving s nonempty

theorem serveWork_inv (inv : Inv cluster tasks state)
    (next : state.serverQueue server = posted :: rest) (work : ¬ posted.isReset) :
    Inv cluster tasks { state with serverQueue := Function.update state.serverQueue server rest } := by
  refine { inv with
    servers := fun j s member => ?_
    mains := fun i => (inv.mains i).congr fun s _ => ⟨rfl, ?_⟩
    serving := serving_of_update inv next }
  · have served := serve_servers inv next j s member
    rwa [TaskInv.registeredBy, if_neg work, Function.update_eq_self] at served
  · by_cases same : s = server
    · subst same
      simp only [resetsTo, own, Function.update_self, next, List.cons_append,
        List.filter_cons_of_neg work]
      rfl
    · simp only [resetsTo, own, Function.update_of_ne same]
      rfl

theorem serveReset_inv (inv : Inv cluster tasks state)
    (next : state.serverQueue server = posted :: rest) (reset : posted.isReset) :
    Inv cluster tasks (({ state with
      serverQueue := Function.update state.serverQueue server rest
      registered := Function.update state.registered server
        (Function.update (state.registered server) posted.msg.modelId
          (some (posted.task, posted.msg.keys))) } : EngineState Val n).push
      (cluster.nodeOf server) ⟨resetWorkerReply posted.msg, posted.task⟩) := by
  have member : server ∈ cluster.servers (cluster.nodeOf server) :=
    inv.serving server (by rw [next]; nofun)
  have coming : posted ∈ state.own cluster server := by
    rw [own, next]
    exact List.mem_cons_self
  obtain ⟨table, id, todo, count, tables, main, -, sender, home, other⟩ :=
    initializing_of_reset inv member coming reset
  obtain ⟨reply, reply_eq⟩ : ∃ reply, reply = (⟨resetWorkerReply posted.msg, posted.task⟩ : Posted Val) :=
    ⟨_, rfl⟩
  have target : reply.msg.recver = id := by rw [reply_eq]; exact sender
  have is_reset : reply.isReset := by rw [reply_eq]; rfl
  have no_server : ∀ j, id ∉ cluster.servers j := fun j mem =>
    other (home.symm.trans (cluster.servers_node j id mem) ▸ mem)
  have resets_eq : ∀ j, ∀ s ∈ cluster.servers j, ∀ k,
      (state.push (cluster.nodeOf server) reply).inbound cluster k s = state.inbound cluster k s := by
    intro j s s_mem k
    rw [inbound_push, target, if_neg, List.append_nil]
    rintro ⟨-, rfl⟩
    exact no_server j s_mem
  rw [← reply_eq]
  refine ⟨inv.counted, inv.entered, inv.returned, ?_, fun i => ?_, ?_, inv.linked,
    serving_of_update inv next⟩
  · intro j s s_mem
    have served := serve_servers inv next j s s_mem
    rw [TaskInv.registeredBy, if_pos reset] at served
    simp only [← resets_eq j s s_mem] at served
    exact served
  · have front : state.resetsTo cluster server =
        posted :: (rest ++ state.inbound cluster (cluster.nodeOf server) server).filter Posted.isReset := by
      rw [resetsTo, own, next, List.cons_append, List.filter_cons_of_pos reset]
    have others : ∀ s ∈ cluster.servers i, (({ state with
        serverQueue := Function.update state.serverQueue server rest
        registered := Function.update state.registered server
          (Function.update (state.registered server) posted.msg.modelId
            (some (posted.task, posted.msg.keys))) } : EngineState Val n).push
        (cluster.nodeOf server) reply).resetsTo cluster s =
          Function.update (state.resetsTo cluster) server
            ((rest ++ state.inbound cluster (cluster.nodeOf server) server).filter Posted.isReset) s := by
      intro s s_mem
      have kept := resets_eq i s s_mem (cluster.nodeOf s)
      change (Function.update state.serverQueue server rest s ++
        (state.push (cluster.nodeOf server) reply).inbound cluster (cluster.nodeOf s) s).filter _ = _
      rw [kept]
      by_cases same : s = server
      · subst same
        rw [Function.update_self, Function.update_self]
      · rw [Function.update_of_ne same, Function.update_of_ne same, resetsTo, own]
    change MainInv cluster tasks i (state.task i) _ _
      ((state.push (cluster.nodeOf server) reply).replies cluster i) (state.main i)
    rw [replies_push]
    by_cases same : i = cluster.nodeOf server
    · subst same
      have main_inv := inv.mains (cluster.nodeOf server)
      rw [main] at main_inv ⊢
      obtain ⟨done, split, -, initializing⟩ := main_inv
      rw [if_pos ⟨rfl, is_reset, target ▸ other⟩]
      have served : MainInv cluster tasks (cluster.nodeOf server) (state.task (cluster.nodeOf server))
          _ _ _ (.initTable table id todo count tables) :=
        ⟨done, split, home, initializing.serve member front posted.msg.keys (target.trans sender.symm)⟩
      exact served.congr fun s s_mem => ⟨rfl, others s s_mem⟩
    · rw [if_neg fun both => same both.1, List.append_nil]
      refine (inv.mains i).congr fun s s_mem => ?_
      have different : s ≠ server := by
        rintro rfl
        exact same (cluster.servers_node i s s_mem).symm
      rw [others s s_mem, Function.update_of_ne different]
      exact ⟨Function.update_of_ne different .., rfl⟩
  · have routed := routed_push inv (i := cluster.nodeOf server) fun (_ : reply.isReset) => target ▸ home
    exact routed

end Serve

theorem test_inv (inv : Inv cluster tasks state) (testing : (state.mailboxes i).caller = .testing)
    {out : List (EngineEvent Val)} (stepped : state.step cluster tasks (.test i) = .ok (state', out)) :
    Inv cluster tasks state' ∧ state'.registered = state.registered ∧ out = [] := by
  rcases lt_or_ge (state.mailboxes i).barrierCount n with below | enough
  · simp only [step, Mailbox.test_block below, reduceCtorEq, if_false] at stepped
    cases stepped
    exact ⟨mailbox_inv inv (inv.counted.change (by simp [testing]) (by simp [testing]) rfl
      fun _ => below), rfl, rfl⟩
  · simp only [step, Mailbox.test_pass enough, if_true] at stepped
    cases stepped
    exact ⟨leaveBarrier_inv inv testing enough, rfl, rfl⟩

theorem serve_cases {server : Tid} {rest : List (Posted Val)} {out : List (EngineEvent Val)}
    (inv : Inv cluster tasks state) (next : state.serverQueue server = posted :: rest)
    (stepped : state.step cluster tasks (.serve server) = .ok (state', out)) :
    Inv cluster tasks state' ∧
      ((posted.isReset ∧ state'.registered = Function.update state.registered server
          (Function.update (state.registered server) posted.msg.modelId
            (some (posted.task, posted.msg.keys))) ∧
          out = [.reset server posted.msg.modelId posted.task posted.msg.keys]) ∨
        ¬ posted.isReset ∧ state'.registered = state.registered ∧
          out = [.processed server posted.msg posted.task
            (state.registered server posted.msg.modelId)]) := by
  simp only [step, next, handle] at stepped
  split at stepped
  · next flag =>
      have reset : posted.isReset := by simpa [Posted.isReset] using flag
      cases stepped
      exact ⟨serveReset_inv inv next reset, .inl ⟨reset, rfl, rfl⟩⟩
  · next flag =>
      have work : ¬ posted.isReset := by simpa [Posted.isReset] using flag
      cases stepped
      exact ⟨serveWork_inv inv next work, .inr ⟨work, rfl, rfl⟩⟩

/-- One step keeps the invariant; only a server changes what is registered. -/
theorem step_inv (inv : Inv cluster tasks state) {input : EngineInput Val n}
    {out : List (EngineEvent Val)} (enabled : state.Enabled cluster tasks input)
    (quiet : state.Quiet cluster input)
    (stepped : state.step cluster tasks input = .ok (state', out)) :
    Inv cluster tasks state' ∧
      ((∃ server, input = .serve server) ∨ state'.registered = state.registered ∧ out = []) := by
  cases input with
  | initTable i id =>
      cases main : state.main i with
      | tables tables =>
          cases tables with
          | nil => simp [Enabled, main] at enabled
          | cons table rest =>
              simp only [Enabled, main] at enabled
              have kept := initTable_inv inv main enabled.1 enabled.2
              simp only [step, main] at stepped
              split at stepped
              · next none =>
                  cases stepped
                  rw [if_pos none] at kept
                  exact ⟨kept, .inr ⟨rfl, rfl⟩⟩
              · next some =>
                  cases stepped
                  rw [if_neg some] at kept
                  exact ⟨kept, .inr ⟨rfl, rfl⟩⟩
      | initTable | inBarrier | running => simp [Enabled, main] at enabled
  | pushReset i =>
      cases main : state.main i with
      | initTable table id todo count rest =>
          cases todo with
          | nil => simp [Enabled, main] at enabled
          | cons server todo =>
              simp only [step, main] at stepped
              cases stepped
              exact ⟨pushReset_inv inv main, .inr ⟨rfl, rfl⟩⟩
      | tables | inBarrier | running => simp [Enabled, main] at enabled
  | tableDone i =>
      cases main : state.main i with
      | initTable table id todo count rest =>
          cases todo with
          | cons => simp [Enabled, main] at enabled
          | nil =>
              cases count with
              | succ => simp [Enabled, main] at enabled
              | zero =>
                  simp only [step, main] at stepped
                  cases stepped
                  exact ⟨tableDone_inv inv main, .inr ⟨rfl, rfl⟩⟩
      | tables | inBarrier | running => simp [Enabled, main] at enabled
  | enterBarrier i =>
      cases stepped
      exact ⟨enterBarrier_inv inv enabled.1, .inr ⟨rfl, rfl⟩⟩
  | sendBarrier i =>
      obtain ⟨j, rest, sending⟩ := enabled
      simp only [step, sending] at stepped
      cases stepped
      exact ⟨sendBarrier_inv inv sending, .inr ⟨rfl, rfl⟩⟩
  | test i =>
      obtain ⟨kept, same, none⟩ := test_inv inv enabled stepped
      exact ⟨kept, .inr ⟨same, none⟩⟩
  | wake i =>
      have asleep : (state.mailboxes i).caller = .asleep := enabled
      cases stepped
      exact ⟨mailbox_inv inv (inv.counted.change (by simp [Mailbox.wake, asleep, Caller.notify])
        (by simp [Mailbox.wake]) rfl (by simp [Mailbox.wake, asleep, Caller.notify])), .inr ⟨rfl, rfl⟩⟩
  | work i msg =>
      cases main : state.main i with
      | running workers =>
          simp only [Enabled, main] at enabled
          cases stepped
          exact ⟨work_inv inv main enabled quiet, .inr ⟨rfl, rfl⟩⟩
      | tables | inBarrier | initTable => simp [Enabled, main] at enabled
  | finish i worker =>
      cases main : state.main i with
      | running workers =>
          simp only [step, main] at stepped
          cases stepped
          exact ⟨finish_inv inv worker main, .inr ⟨rfl, rfl⟩⟩
      | tables | inBarrier | initTable => simp [Enabled, main] at enabled
  | join i =>
      cases stepped
      exact ⟨join_inv inv enabled, .inr ⟨rfl, rfl⟩⟩
  | transmit i =>
      cases next : state.sendQueue i with
      | nil => exact absurd next enabled
      | cons posted rest =>
          simp only [step, next] at stepped
          cases stepped
          exact ⟨transmit_inv inv next, .inr ⟨rfl, rfl⟩⟩
  | receive k j =>
      cases next : (state.links k j).inFlight with
      | nil => exact absurd next enabled
      | cons packet rest =>
          cases packet with
          | barrier =>
              simp only [step, next] at stepped
              cases stepped
              exact ⟨receiveBarrier_inv inv next, .inr ⟨rfl, rfl⟩⟩
          | data posted =>
              simp only [step, next] at stepped
              obtain ⟨delivered, done, same⟩ := Except.bind_eq_ok.mp stepped
              cases same
              have kept := deliver_registered done
              exact ⟨receiveData_inv inv next quiet done, .inr ⟨kept, rfl⟩⟩
  | serve server =>
      cases next : state.serverQueue server with
      | nil => exact absurd next enabled
      | cons posted rest => exact ⟨(serve_cases inv next stepped).1, .inl ⟨server, rfl⟩⟩

theorem init_inv : Inv cluster tasks (EngineState.init tasks : EngineState Val n) where
  counted := .start
  entered _ := rfl
  returned _ := rfl
  servers _ _ _ :=
    { fits := fun _ => trivial
      others := fun _ _ _ mem => nomatch mem
      latest := fun _ _ _ begun => absurd begun (Nat.not_lt_zero _)
      running := fun runs => absurd runs (Nat.lt_irrefl 0)
      ids := nofun
      queued := fun _ mem => nomatch mem
      coming := fun _ _ mem => nomatch mem }
  mains _ := ⟨[], rfl, nofun, fun _ _ => rfl, rfl⟩
  routed _ _ mem := nomatch mem
  linked _ _ _ mem := nomatch mem
  serving _ nonempty := absurd rfl nonempty

theorem lastReset_append (events : List (EngineEvent Val)) (event : EngineEvent Val) (server : Tid)
    (table : UInt32) : lastReset (events ++ [event]) server table = match event with
      | .reset s T task ids => if s = server ∧ T = table then some (task, ids)
          else lastReset events server table
      | .processed .. => lastReset events server table := by
  rw [lastReset, List.foldl_append]
  rfl

end Steps

/-- A message of a worker is processed after the reset of its task and before the next one, and
    its sender is one of the workers registered by it. -/
def InItsTask (before : List (EngineEvent Val)) : EngineEvent Val → Prop
  | .reset .. => True
  | .processed server msg task registered => registered = lastReset before server msg.modelId ∧
      ∃ ids, registered = some (task, ids) ∧ msg.sender ∈ ids

/-- Tasks are isolated in every run that resets a server only when nothing of the earlier
    tasks can reach it any more. -/
theorem messages_in_their_task (cluster : Cluster n) (tasks : List (EngineTask n))
    {inputs : List (EngineInput Val n)} {state : EngineState Val n} {events : List (EngineEvent Val)}
    (run : Runs (step cluster tasks)
      (fun state _ input => state.Enabled cluster tasks input ∧ state.Quiet cluster input)
      (init tasks) inputs state events) : AtEach InItsTask events := by
  have all : Inv cluster tasks state ∧
      (∀ server table, state.registered server table = lastReset events server table) ∧
      AtEach InItsTask events := by
    refine run.invariant (P := fun _ state events => Inv cluster tasks state ∧
      (∀ server table, state.registered server table = lastReset events server table) ∧
      AtEach InItsTask events) ⟨init_inv, fun _ _ => rfl, .nil _⟩ ?_
    intro _ state events input state' out _ ⟨inv, registered, isolated⟩ ⟨enabled, quiet⟩ stepped
    obtain ⟨inv', ⟨server, rfl⟩ | ⟨same, rfl⟩⟩ := step_inv inv enabled quiet stepped
    · refine ⟨inv', ?_⟩
      cases next : state.serverQueue server with
      | nil => exact absurd next enabled
      | cons posted rest =>
          obtain ⟨-, ⟨reset, changed, rfl⟩ | ⟨work, same, rfl⟩⟩ := serve_cases inv next stepped
          · refine ⟨fun s T => ?_, isolated.append trivial⟩
            rw [lastReset_append, changed]
            by_cases here : server = s
            · subst here
              by_cases this : posted.msg.modelId = T
              · subst this
                simp
              · simp [this, Ne.symm this, registered]
            · simp [here, Ne.symm here, registered]
          · refine ⟨fun s T => ?_, isolated.append ⟨registered server _, ?_⟩⟩
            · rw [lastReset_append, same]
              exact registered s T
            · have member := inv.serving server (by rw [next]; nofun)
              have server_inv := inv.servers _ server member
              rw [next] at server_inv
              exact server_inv.front work
    · rw [List.append_nil]
      exact ⟨inv', fun s T => same ▸ registered s T, isolated⟩
  exact all.2.2

/-! ## Two nodes -/

instance (workers : List Tid) (msg : Message Val) (state : EngineState Val n) (i : Fin n) :
    Decidable (state.MaySend cluster tasks i workers msg) :=
  inferInstanceAs (Decidable (_ ∧ _ ∧ _ ∧ _))

instance (state : EngineState Val n) (input : EngineInput Val n) :
    Decidable (state.Enabled cluster tasks input) :=
  match input with
  | .initTable i id => match h : state.main i with
      | .tables (_ :: _) => decidable_of_iff (cluster.nodeOf id = i ∧ id ∉ cluster.servers i)
          (by simp [Enabled, h])
      | .tables [] | .initTable .. | .inBarrier | .running _ => .isFalse (by simp [Enabled, h])
  | .pushReset i => match h : state.main i with
      | .initTable _ _ (_ :: _) _ _ => .isTrue (by simp [Enabled, h])
      | .initTable _ _ [] _ _ | .tables _ | .inBarrier | .running _ => .isFalse (by simp [Enabled, h])
  | .tableDone i => match h : state.main i with
      | .initTable _ _ [] 0 _ => .isTrue (by simp [Enabled, h])
      | .initTable _ _ (_ :: _) _ _ | .initTable _ _ [] (_ + 1) _ | .tables _ | .inBarrier
      | .running _ => .isFalse (by simp [Enabled, h])
  | .enterBarrier i => inferInstanceAs (Decidable (_ = EngineMain.tables [] ∧ state.task i < _))
  | .sendBarrier i => decidable_of_iff ((state.mailboxes i).caller.next.isSome) Caller.next_isSome
  | .test i => inferInstanceAs (Decidable ((state.mailboxes i).caller = .testing))
  | .wake i => inferInstanceAs (Decidable ((state.mailboxes i).caller = .asleep))
  | .work i msg => match h : state.main i with
      | .running workers => decidable_of_iff (state.MaySend cluster tasks i workers msg)
          (by simp [Enabled, h])
      | .tables _ | .initTable .. | .inBarrier => .isFalse (by simp [Enabled, h])
  | .finish i worker => match h : state.main i with
      | .running workers => decidable_of_iff (worker ∈ workers) (by simp [Enabled, h])
      | .tables _ | .initTable .. | .inBarrier => .isFalse (by simp [Enabled, h])
  | .join i => inferInstanceAs (Decidable (state.main i = .running []))
  | .transmit i => decidable_of_iff ((state.sendQueue i).isEmpty = false) (by simp [Enabled])
  | .receive sender recver => decidable_of_iff ((state.links sender recver).inFlight.isEmpty = false)
      (by simp [Enabled])
  | .serve server => decidable_of_iff ((state.serverQueue server).isEmpty = false) (by simp [Enabled])

instance (state : EngineState Val n) (input : EngineInput Val n) :
    Decidable (state.Quiet cluster input) :=
  match input with
  | .receive sender recver => match h : (state.links sender recver).inFlight with
      | .data posted :: _ => decidable_of_iff (posted.isReset → posted.msg.recver ∈ cluster.servers recver →
          ∀ i ≠ recver, ∀ p ∈ state.inbound cluster i posted.msg.recver,
            p.msg.modelId ≠ posted.msg.modelId) (by simp [Quiet, h])
      | .barrier :: _ | [] => .isTrue (by simp [Quiet, h])
  | .work i msg => inferInstanceAs (Decidable (∀ t ∈ state.newest msg.recver msg.modelId,
      t ≤ state.task i))
  | .initTable .. | .pushReset _ | .tableDone _ | .enterBarrier _ | .sendBarrier _ | .test _ | .wake _
  | .finish .. | .join _ | .transmit _ | .serve _ => .isTrue trivial

/-- Two nodes with one server each; the threads of node 1 begin at 1000. -/
def twoNodes : Cluster 2 where
  nodeOf tid := if tid < 1000 then 0 else 1
  servers := ![[0], [1000]]
  servers_node := by decide

/-- Only node 1 has a worker of the first task, and only node 0 one of the second. -/
def twoTasks : List (EngineTask 2) := [⟨[0], ![[], [1010]]⟩, ⟨[0], ![[10], []]⟩]

/-- A node registers the workers with its server. -/
def initOne (i : Fin 2) (id server : Tid) : List (EngineInput Int 2) :=
  [.initTable i id, .pushReset i, .transmit i, .receive i i, .serve server, .transmit i, .receive i i,
    .tableDone i]

/-- Both nodes pass the barrier. -/
def passBarrier : List (EngineInput Int 2) :=
  [.enterBarrier 0, .sendBarrier 0, .sendBarrier 0, .enterBarrier 1, .sendBarrier 1, .sendBarrier 1,
    .receive 0 0, .receive 1 0, .receive 0 1, .receive 1 1, .test 0, .test 1]

/-- The last message of the worker of the first task. -/
def lastClock : Message Int := createMessage .kClock 0 1010 0 0 [] []

theorem messages_in_their_task_twoTasks : ∃ events : List (EngineEvent Int),
    events.getLast? = some (.reset 0 0 1 [10]) ∧
      .processed 0 lastClock 0 (some (0, [1010])) ∈ events ∧ AtEach InItsTask events := by
  obtain ⟨state, events, run, last, processed⟩ := runs_of_exec (step twoNodes twoTasks)
    (fun state _ input => state.Enabled twoNodes twoTasks input ∧ state.Quiet twoNodes input)
    (init twoTasks)
    (initOne 0 900 0 ++ initOne 1 1900 1000 ++ passBarrier ++
      [.work 1 lastClock, .transmit 1, .receive 1 0, .serve 0, .join 0] ++ initOne 0 900 0)
    (fun _ events => events.getLast? = some (.reset 0 0 1 [10]) ∧
      .processed 0 lastClock 0 (some (0, [1010])) ∈ events) (by decide +kernel)
  exact ⟨events, last, processed, messages_in_their_task twoNodes twoTasks run⟩

/-- Node 0 ends its part of the first task and begins the second while the message of node 1 waits
    to be sent; its server then meets a worker that it does not know. -/
theorem messages_in_their_task_fails : ¬ ∀ (inputs : List (EngineInput Int 2))
    (state : EngineState Int 2) (events : List (EngineEvent Int)),
    Runs (step twoNodes twoTasks) (fun state _ input => state.Enabled twoNodes twoTasks input)
      (init twoTasks) inputs state events → AtEach InItsTask events := by
  intro isolated
  obtain ⟨state, events, run, rfl⟩ := runs_of_exec (step twoNodes twoTasks)
    (fun state _ input => state.Enabled twoNodes twoTasks input) (init twoTasks)
    (initOne 0 900 0 ++ initOne 1 1900 1000 ++ passBarrier ++ [.work 1 lastClock, .join 0] ++
      initOne 0 900 0 ++ [.transmit 1, .receive 1 0, .serve 0])
    (fun _ events => events = [.reset 0 0 0 [1010], .reset 1000 0 0 [1010], .reset 0 0 1 [10],
      .processed 0 lastClock 0 (some (1, [10]))]) (by decide +kernel)
  obtain ⟨-, ids, registered, -⟩ := isolated _ state _ run
    [.reset 0 0 0 [1010], .reset 1000 0 0 [1010], .reset 0 0 1 [10]] _ [] rfl
  cases registered

end EngineState

end FlexPS
