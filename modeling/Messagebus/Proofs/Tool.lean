import Messagebus.Proofs.Calls
import Messagebus.Proofs.Codec
import Messagebus.Proofs.CommandLine

namespace Messagebus.Proofs.Tool
open Frame Messagebus.Cli Proofs.Calls

variable {env : Env} {s : Settings} {argv args : List Bytes} {word text : Bytes} {w w' : World}
  {msg : Message}

/-- The calls on malamute that hand a message over. -/
def handed (w : World) : List MlmCall := w.client.calls.filter (fun call => call.content?.isSome)

/-- The message is shown as the text, whatever has been logged before. -/
def Shows (msg : Message) (text : Bytes) : Prop :=
  ∀ log, dumpMessage msg log = .ok () (log ++ [text])

theorem shows_or_fault (msg : Message) :
    (∃ text, Shows msg text) ∨ ∃ fault, ∀ log, dumpMessage msg log = .error fault log := by
  by_cases hlength : msg.userData.length ≤ INT_MAX
  · have heq : ∀ log, dumpMessage msg log = logInfo (cStr (shown msg)) log := by
      intro log
      rw [Dump.dumpMessage_eq, if_pos hlength]
    cases he : Printf.expand (cStr (shown msg)) with
    | ok text =>
      refine Or.inl ⟨text, fun log => ?_⟩
      rw [heq, logInfo, he]
    | error why =>
      refine Or.inr ⟨.format why, fun log => ?_⟩
      rw [heq, logInfo, he]
  · refine Or.inr ⟨.overflow, fun log => ?_⟩
    rw [Dump.dumpMessage_eq, if_neg hlength]

theorem Shows.dump (h : Shows msg text) (w : World) :
    Cli.dump msg w = .ok () { w with log := w.log ++ [text] } := by
  unfold Cli.dump
  rw [h w.log]

/-- If the message cannot be shown, that is the end. -/
theorem dump_fault {fault : DumpFault} (h : ∀ log, dumpMessage msg log = .error fault log)
    (w : World) : Cli.dump msg w = .error .undefined w := by
  unfold Cli.dump
  rw [h w.log]

theorem not_shows {fault : DumpFault} (h : ∀ log, dumpMessage msg log = .error fault log) :
    ¬ ∃ text, Shows msg text := by
  rintro ⟨text, hs⟩
  have he := (h []).symm.trans (hs [])
  cases he

theorem dump_client (msg : Message) (w : World) : (final (Cli.dump msg w)).client = w.client := by
  unfold Cli.dump
  cases dumpMessage msg w.log with
  | ok u log => rfl
  | error fault log => rfl

theorem listen_client (heard : List Message) (w : World) :
    (final (Cli.listen heard w)).client = w.client := by
  induction heard generalizing w with
  | nil => rfl
  | cons msg heard ih =>
    rw [Cli.listen]
    have hd := dump_client msg w
    cases hdump : Cli.dump msg w with
    | ok u w' =>
      rw [hdump] at hd
      rw [bind_of_ok hdump, ih]
      exact hd
    | error e w' =>
      rw [hdump] at hd
      rw [bind_of_error hdump]
      exact hd

theorem onBus_client {α : Type} (op : Op Listener α) (w : World) :
    (final (Cli.onBus op w)).client = final (op w.client) ∧
      (final (Cli.onBus op w)).log = w.log := by
  unfold Cli.onBus
  cases op w.client with
  | ok a client => exact ⟨rfl, rfl⟩
  | error fault client => cases fault <;> exact ⟨rfl, rfl⟩

theorem catching_client (op : ToolOp Unit) (w : World) :
    (final (Cli.catching op w)).client = (final (op w)).client ∧
      (final (Cli.catching op w)).log = (final (op w)).log := by
  unfold Cli.catching
  cases op w with
  | ok a w' => exact ⟨rfl, rfl⟩
  | error stop w' => cases stop <;> exact ⟨rfl, rfl⟩

/-- The message that the action of the name sends. -/
def sentMessage (env : Env) (s : Settings) (word : Bytes) (argv : List Bytes) : Message :=
  if word = lit "publish" then publishMessage s argv else Cli.requestMessage env s argv

/-- Where it goes. -/
def handover (env : Env) (s : Settings) (word : Bytes) (argv : List Bytes) : MlmCall :=
  if word = lit "publish" then
    .send (cStr s.topic) (toZmsg (sentMessage env s word argv)) env.mlm.send
  else
    .sendto (cStr (if s.doMetadata = true ∧ s.destination ≠ [] then s.destination else s.queue))
      (cStr s.queue) (toZmsg (sentMessage env s word argv)) env.mlm.send

/-- What the action needs to come to its sending. -/
def Sends (env : Env) (s : Settings) (word : Bytes) : Prop :=
  if word = lit "sendRequest" then True
  else if word = lit "publish" then env.mlm.setProducer = true
  else if word = lit "request" then
    s.doMetadata = true ∧ env.uuid ≠ [] ∧ s.destination ≠ [] ∧ (stoi s.timeout).isSome = true
  else False

/-- Either the message is shown and sent, or nothing is sent and there is a reason. -/
def Acts (env : Env) (s : Settings) (word : Bytes) (argv : List Bytes) (w w' : World) : Prop :=
  (∃ text, Sends env s word ∧ Shows (sentMessage env s word argv) text ∧
    handed w' = handed w ++ [handover env s word argv] ∧ ∃ more, w'.log = w.log ++ text :: more) ∨
  ¬ (Sends env s word ∧ ∃ text, Shows (sentMessage env s word argv) text) ∧ handed w' = handed w

theorem cStr_cStr (bytes : Bytes) : cStr (cStr bytes) = cStr bytes :=
  List.takeWhile_idem

theorem find_request (hs : s.doMetadata = true) (env : Env) (argv : List Bytes) (key : Bytes) :
    (Cli.requestMessage env s argv).metaData.find key =
      ([(Message.FROM, clientName env), (Message.REPLY_TO, clientName env),
        (Message.SUBJECT, s.subject), (Message.CORRELATION_ID, env.uuid),
        (Message.TO, s.destination), (Message.TIMEOUT, s.timeout)].find?
          (fun e => e.1 = key)).map Prod.snd := by
  unfold Cli.requestMessage
  rw [if_pos hs, SortedMap.find_emplaceAll]
  rfl

theorem no_metadata (hs : s.doMetadata = false) (env : Env) (argv : List Bytes) (key : Bytes) :
    (Cli.requestMessage env s argv).metaData.find key = none := by
  unfold Cli.requestMessage
  rw [hs]
  rfl

/-- The keys that `request` would add are there. -/
theorem request_message (hs : s.doMetadata = true) (env : Env) (argv : List Bytes)
    (name : Bytes) (timeOut : Int) :
    Messagebus.requestMessage name (Cli.requestMessage env s argv) timeOut =
      Cli.requestMessage env s argv := by
  have htimeout :
      (Cli.requestMessage env s argv).metaData.find Message.TIMEOUT = some s.timeout := by
    rw [find_request hs]
    rfl
  have hreply : (Cli.requestMessage env s argv).metaData.find Message.REPLY_TO =
      some (clientName env) := by
    rw [find_request hs]
    rfl
  unfold Messagebus.requestMessage
  rw [SortedMap.emplace_present htimeout, SortedMap.emplace_present hreply]

theorem sentMessage_decodes (env : Env) (s : Settings) (word : Bytes) (argv : List Bytes) :
    fromZmsg (toZmsg (sentMessage env s word argv)) = .ok (sentMessage env s word argv) := by
  apply Codec.fromZmsg_toZmsg_exact
  unfold sentMessage
  split_ifs with hw
  · unfold publishMessage
    cases s.doMetadata with
    | true => rfl
    | false => rfl
  · cases hs : s.doMetadata with
    | true =>
      rw [find_request hs]
      rfl
    | false => exact no_metadata hs env argv metadataEnd

theorem sentMessage_userData (env : Env) (s : Settings) (word : Bytes) (argv : List Bytes) :
    (sentMessage env s word argv).userData = argv := by
  unfold sentMessage
  split_ifs <;> rfl

theorem handed_append (calls : List MlmCall) {call : MlmCall}
    (h : w'.client.calls = w.client.calls ++ calls)
    (hc : calls.filter (fun call => call.content?.isSome) = [call]) :
    handed w' = handed w ++ [call] := by
  unfold handed
  rw [h, List.filter_append, hc]

/-- Without a receiver a request goes to the client of the queue's name. -/
theorem sendRequest_calls (mlm : Mlm) (requestQueue : Bytes) (message : Message)
    (c : Client Listener) :
    (final (Messagebus.sendRequest mlm requestQueue message c)).calls = c.calls ++
      [.sendto (cStr (if missing (message.metaData.find Message.TO) = true then requestQueue
        else (message.metaData.find Message.TO).getD [])) (cStr requestQueue) (toZmsg message)
        mlm.send] := by
  unfold Messagebus.sendRequest
  simp only [warn_eq]
  cases ht : missing (message.metaData.find Message.TO) with
  | true =>
    simp only [if_true]
    change c.calls ++ [.sendto (cStr (cStr requestQueue)) (cStr (cStr requestQueue))
      (toZmsg message) mlm.send] = _
    rw [cStr_cStr]
  | false =>
    obtain ⟨value, hf, _⟩ := second_of_present (L := Listener) ht
    simp only [hf]
    rfl

/-- Who a request of the tool is addressed to. -/
theorem addressee (env : Env) (s : Settings) (argv : List Bytes) :
    (if missing ((Cli.requestMessage env s argv).metaData.find Message.TO) = true then s.queue
      else ((Cli.requestMessage env s argv).metaData.find Message.TO).getD []) =
      if s.doMetadata = true ∧ s.destination ≠ [] then s.destination else s.queue := by
  cases hs : s.doMetadata with
  | false =>
    rw [no_metadata hs]
    simp [missing]
  | true =>
    have hto : (Cli.requestMessage env s argv).metaData.find Message.TO = some s.destination := by
      rw [find_request hs]
      rfl
    rw [hto]
    by_cases hd : s.destination = [] <;> simp [missing, hd]

/-- An action whose message cannot be shown. -/
theorem acts_fault (word : Bytes) {fault : DumpFault}
    (h : ∀ log, dumpMessage (sentMessage env s word argv) log = .error fault log) (w : World) :
    Acts env s word argv w w :=
  Or.inr ⟨fun hs => not_shows h hs.2, rfl⟩

theorem sendRequest_acts (env : Env) (s : Settings) (argv : List Bytes) (w : World) :
    Acts env s (lit "sendRequest") argv w (final (Cli.sendRequest env s argv w)) := by
  rcases shows_or_fault (Cli.requestMessage env s argv) with ⟨text, hs⟩ | ⟨fault, hf⟩
  · left
    refine ⟨text, trivial, hs, ?_⟩
    have hrun : Cli.sendRequest env s argv w =
        Cli.onBus (Messagebus.sendRequest env.mlm s.queue (Cli.requestMessage env s argv))
          { w with log := w.log ++ [text] } := bind_of_ok (hs.dump w)
    rw [hrun]
    obtain ⟨hclient, hlog⟩ := onBus_client
      (Messagebus.sendRequest env.mlm s.queue (Cli.requestMessage env s argv))
      { w with log := w.log ++ [text] }
    refine ⟨handed_append [handover env s (lit "sendRequest") argv] ?_ rfl, [], hlog⟩
    rw [hclient, sendRequest_calls, addressee]
    rfl
  · have hrun : Cli.sendRequest env s argv w = .error .undefined w :=
      bind_of_error (dump_fault hf w)
    rw [hrun]
    exact acts_fault (lit "sendRequest") hf w

theorem publish_acts (env : Env) (s : Settings) (argv : List Bytes) {w : World}
    (hw : w.client.bus.publishTopic = []) :
    Acts env s (lit "publish") argv w (final (Cli.publish env s argv w)) := by
  rcases shows_or_fault (publishMessage s argv) with ⟨text, hs⟩ | ⟨fault, hf⟩
  · have hrun : Cli.publish env s argv w =
        Cli.onBus (Messagebus.publish env.mlm s.topic (publishMessage s argv))
          { w with log := w.log ++ [text] } := bind_of_ok (hs.dump w)
    rw [hrun]
    obtain ⟨hclient, hlog⟩ := onBus_client
      (Messagebus.publish env.mlm s.topic (publishMessage s argv))
      { w with log := w.log ++ [text] }
    rw [publish_first env.mlm s.topic _ hw] at hclient
    cases hp : env.mlm.setProducer with
    | true =>
      rw [hp, if_pos rfl] at hclient
      left
      refine ⟨text, hp, hs, handed_append
        [.setProducer (cStr s.topic) true, handover env s (lit "publish") argv] ?_ rfl, [], hlog⟩
      rw [hclient]
      exact List.append_assoc _ _ _
    | false =>
      rw [hp, if_neg Bool.false_ne_true] at hclient
      right
      refine ⟨?_, ?_⟩
      · rintro ⟨hsends, _⟩
        cases hp.symm.trans hsends
      · unfold handed
        rw [hclient]
        exact (List.filter_append ..).trans (List.append_nil _)
  · have hrun : Cli.publish env s argv w = .error .undefined w := bind_of_error (dump_fault hf w)
    rw [hrun]
    exact acts_fault (lit "publish") hf w

/-- A request that passes its checks is sent before anything else can go wrong. -/
theorem request_calls {mlm : Mlm} {requestQueue address : Bytes} {message : Message}
    {c c₁ : Client Listener} (harm : requestArm message c = .ok address c₁) (timeOut : Int)
    (meanwhile : Bus Listener → Bus Listener) (timedOut : Bool) :
    (final (Messagebus.request mlm requestQueue message timeOut meanwhile timedOut c)).calls =
      c₁.calls ++ [.sendto (cStr address) (cStr requestQueue)
        (toZmsg (Messagebus.requestMessage c₁.bus.clientName message timeOut)) mlm.send] := by
  rw [Messagebus.request, bind_of_ok harm]
  cases timedOut <;> rfl

/-- What is left of `request` once its message has been shown. -/
def asking (env : Env) (s : Settings) (argv : List Bytes) : ToolOp Unit :=
  match stoi s.timeout with
  | none => throw (.uncaught "stoi")
  | some timeout => do
    dump (← Cli.onBus (Messagebus.request env.mlm s.queue (Cli.requestMessage env s argv) timeout
      env.meanwhile env.timedOut))

theorem asking_keeps {timeout : ℤ} (ht : stoi s.timeout = some timeout) (env : Env)
    (argv : List Bytes) (w : World) :
    (final (asking env s argv w)).client = final (Messagebus.request env.mlm s.queue
      (Cli.requestMessage env s argv) timeout env.meanwhile env.timedOut w.client) ∧
      ∃ more, (final (asking env s argv w)).log = w.log ++ more := by
  unfold asking
  simp only [ht]
  obtain ⟨hclient, hlog⟩ := onBus_client (Messagebus.request env.mlm s.queue
    (Cli.requestMessage env s argv) timeout env.meanwhile env.timedOut) w
  cases hr : Cli.onBus (Messagebus.request env.mlm s.queue (Cli.requestMessage env s argv) timeout
    env.meanwhile env.timedOut) w with
  | error stop w' =>
    rw [hr] at hclient hlog
    rw [bind_of_error hr]
    exact ⟨hclient, [], hlog.trans (List.append_nil _).symm⟩
  | ok response w' =>
    rw [hr] at hclient hlog
    rw [bind_of_ok hr, dump_client]
    refine ⟨hclient, ?_⟩
    rw [← (hlog : w'.log = w.log)]
    rcases shows_or_fault response with ⟨text, hs⟩ | ⟨fault, hf⟩
    · rw [hs.dump w']
      exact ⟨[text], rfl⟩
    · rw [dump_fault hf w']
      exact ⟨[], (List.append_nil _).symm⟩

/-- Which requests of the tool pass the checks. -/
theorem requestArm_tool (env : Env) (s : Settings) (argv : List Bytes) (c : Client Listener) :
    (¬ (s.doMetadata = true ∧ env.uuid ≠ [] ∧ s.destination ≠ []) ∧ ∃ fault c₁,
      requestArm (Cli.requestMessage env s argv) c = .error fault c₁ ∧ c₁.calls = c.calls) ∨
    (s.doMetadata = true ∧ env.uuid ≠ [] ∧ s.destination ≠ []) ∧ ∃ c₁,
      requestArm (Cli.requestMessage env s argv) c = .ok s.destination c₁ ∧ c₁.calls = c.calls := by
  cases hs : s.doMetadata with
  | false =>
    rcases requestArm_cases (Cli.requestMessage env s argv) c with
      ⟨_, he⟩ | ⟨uuid, hid, _⟩
    · exact Or.inl ⟨by simp, _, _, he, rfl⟩
    · cases (no_metadata hs env argv _).symm.trans hid
  | true =>
    have hid : (Cli.requestMessage env s argv).correlationId = some env.uuid := by
      rw [Message.correlationId, find_request hs]
      rfl
    have hto : (Cli.requestMessage env s argv).metaData.find Message.TO = some s.destination := by
      rw [find_request hs]
      rfl
    rcases requestArm_cases (Cli.requestMessage env s argv) c with
      ⟨hm, he⟩ | ⟨uuid, hu, hne, ⟨hm, he⟩ | ⟨address, ha, hne', he⟩⟩
    · rw [hid] at hm
      refine Or.inl ⟨?_, _, _, he, rfl⟩
      rintro ⟨_, hne, _⟩
      simp [missing, hne] at hm
    · rw [hto] at hm
      refine Or.inl ⟨?_, _, _, he, rfl⟩
      rintro ⟨_, _, hne⟩
      simp [missing, hne] at hm
    · cases hid.symm.trans hu
      cases hto.symm.trans ha
      exact Or.inr ⟨⟨rfl, hne, hne'⟩, _, he, rfl⟩

theorem request_acts (env : Env) (s : Settings) (argv : List Bytes) (w : World) :
    Acts env s (lit "request") argv w (final (Cli.request env s argv w)) := by
  rcases shows_or_fault (Cli.requestMessage env s argv) with ⟨text, hs⟩ | ⟨fault, hf⟩
  · have hrun : Cli.request env s argv w =
        Cli.catching (asking env s argv) { w with log := w.log ++ [text] } := bind_of_ok (hs.dump w)
    rw [hrun]
    obtain ⟨hclient, hlog⟩ := catching_client (asking env s argv) { w with log := w.log ++ [text] }
    cases ht : stoi s.timeout with
    | none =>
      right
      refine ⟨?_, ?_⟩
      · rintro ⟨hsends, _⟩
        have hsome : (stoi s.timeout).isSome = true := hsends.2.2.2
        rw [ht] at hsome
        cases hsome
      · unfold handed
        rw [hclient, asking, ht]
        rfl
    | some timeout =>
      obtain ⟨hclient', more, hlog'⟩ := asking_keeps ht env argv { w with log := w.log ++ [text] }
      rw [hclient'] at hclient
      rw [hlog'] at hlog
      rcases requestArm_tool env s argv w.client with
        ⟨hnot, fault, c₁, harm, hcalls⟩ | ⟨⟨hmeta, huuid, hto⟩, c₁, harm, hcalls⟩
      · right
        refine ⟨fun hsends => hnot ⟨hsends.1.1, hsends.1.2.1, hsends.1.2.2.1⟩, ?_⟩
        unfold handed
        rw [hclient, Messagebus.request, bind_of_error harm]
        exact congrArg _ hcalls
      · left
        refine ⟨text, ⟨hmeta, huuid, hto, by rw [ht]; rfl⟩, hs,
          handed_append [handover env s (lit "request") argv] ?_ rfl, more, ?_⟩
        · have haddress : handover env s (lit "request") argv =
              .sendto (cStr s.destination) (cStr s.queue)
                (toZmsg (Cli.requestMessage env s argv)) env.mlm.send := by
            change MlmCall.sendto (cStr (if _ then _ else _)) _ _ _ = _
            rw [if_pos ⟨hmeta, hto⟩]
            rfl
          rw [hclient, request_calls harm, request_message hmeta, haddress, hcalls]
        · rw [hlog, List.append_assoc]
          rfl
  · have hrun : Cli.request env s argv w = .error .undefined w := bind_of_error (dump_fault hf w)
    rw [hrun]
    exact acts_fault (lit "request") hf w

/-- An action that only listens. -/
theorem listening_acts {op : Op Listener Unit} {heard : List Message} (hword : ¬ Sends env s word)
    (hop : ∃ calls, (final (op w.client)).calls = w.client.calls ++ calls ∧
      calls.filter (fun call => call.content?.isSome) = []) :
    Acts env s word argv w (final ((do Cli.onBus op; Cli.listen heard : ToolOp Unit) w)) := by
  right
  refine ⟨fun h => hword h.1, ?_⟩
  obtain ⟨calls, hcalls, hnone⟩ := hop
  obtain ⟨hclient, _⟩ := onBus_client op w
  have hhanded : handed (final (Cli.onBus op w)) = handed w := by
    unfold handed
    rw [hclient, hcalls, List.filter_append, hnone, List.append_nil]
  cases hr : Cli.onBus op w with
  | ok u w' =>
    rw [hr] at hhanded
    rw [bind_of_ok hr]
    unfold handed
    rw [listen_client]
    exact hhanded
  | error stop w' =>
    rw [hr] at hhanded
    rw [bind_of_error hr]
    exact hhanded

theorem receive_acts (env : Env) (s : Settings) (argv : List Bytes) (w : World) :
    Acts env s (lit "receive") argv w (final (Cli.receive env s argv w)) := by
  have hsilent : ¬ Sends env s (lit "receive") := not_false
  refine listening_acts hsilent ⟨[], ?_, rfl⟩
  rw [receive_eq, List.append_nil]
  cases w.client.bus.subscriptions.find s.queue with
  | none => rfl
  | some listener => rfl

theorem subscribe_acts (env : Env) (s : Settings) (argv : List Bytes) (w : World) :
    Acts env s (lit "subscribe") argv w (final (Cli.subscribe env s argv w)) := by
  have hsilent : ¬ Sends env s (lit "subscribe") := not_false
  refine listening_acts hsilent ⟨[.setConsumer (cStr s.topic) env.mlm.setConsumer], ?_, rfl⟩
  rw [subscribe_eq]
  cases env.mlm.setConsumer with
  | true => rfl
  | false => rfl

theorem action_acts {action : ProgAction} (h : actions.find word = some action) (env : Env)
    (s : Settings) (argv : List Bytes) {w : World} (hw : w.client.bus.publishTopic = []) :
    Acts env s word argv w (final (action.fn env s argv w)) := by
  unfold actions at h
  rw [SortedMap.find_emplaceAll] at h
  obtain ⟨e, he, rfl⟩ := Option.map_eq_some_iff.mp h
  obtain rfl : e.1 = word := by simpa using List.find?_some he
  have hmem := List.mem_of_find?_eq_some he
  simp only [List.mem_cons, List.not_mem_nil, or_false] at hmem
  rcases hmem with rfl | rfl | rfl | rfl | rfl
  · exact sendRequest_acts env s argv w
  · exact request_acts env s argv w
  · exact receive_acts env s argv w
  · exact subscribe_acts env s argv w
  · exact publish_acts env s argv hw

/-- The tool comes to an action, and has done nothing before. -/
structure Comes (env : Env) (args : List Bytes) (s : Settings) (word : Bytes)
    (argv : List Bytes) : Prop where
  read : commandLine env.permute args (.start env) = .ok (s, word :: argv) (.start env)
  bus : s.type = lit "malamute"
  made : env.created = true ∧ env.connected = true ∧ env.actor = true
  known : (actions.find word).isSome = true

theorem find_busType (type : Bytes) :
    (type = lit "malamute" ∧ ∃ create, busTypes.find type = some create ∧
      ∀ env w, create env w = if env.created = true then .ok () w
        else .error (.uncaught "std::bad_alloc") w) ∨
    type ≠ lit "malamute" ∧ busTypes.find type = none := by
  by_cases ht : type = lit "malamute"
  · subst ht
    refine Or.inl ⟨rfl, _, rfl, ?_⟩
    intro env w
    change (if env.created = true then pure () else throw (.uncaught _) : ToolOp Unit) w = _
    cases env.created <;> rfl
  · right
    refine ⟨ht, ?_⟩
    unfold busTypes
    rw [SortedMap.find_emplaceAll]
    simp [Ne.symm ht]

theorem connect_eq (env : Env) (w : World) :
    (env.connected = true ∧ env.actor = true ∧ connect env w = .ok () w) ∨
      ¬ (env.connected = true ∧ env.actor = true) ∧ ∃ stop, connect env w = .error stop w := by
  unfold connect
  cases hc : env.connected with
  | false => exact Or.inr ⟨by simp, _, rfl⟩
  | true =>
    cases ha : env.actor with
    | false => exact Or.inr ⟨by simp, _, rfl⟩
    | true => exact Or.inl ⟨rfl, rfl, rfl⟩

/-- What the tool has done when it ends. -/
theorem main_cases (env : Env) (args : List Bytes) :
    ((∀ s word argv, ¬ Comes env args s word argv) ∧
      (final (Cli.main env args (.start env))).client = (World.start env).client) ∨
    ∃ s word argv action, Comes env args s word argv ∧ actions.find word = some action ∧
      Cli.main env args (.start env) = action.fn env s argv (.start env) := by
  rcases CommandLine.commandLine_cases env.permute args (.start env) with
    ⟨s, operands, hc⟩ | ⟨err, hc⟩
  · have hcomes : ∀ s' word argv, Comes env args s' word argv →
        s' = s ∧ word :: argv = operands := by
      intro s' word argv h
      cases hc.symm.trans h.read
      exact ⟨rfl, rfl⟩
    rw [Cli.main, bind_of_ok hc]
    rcases find_busType s.type with ⟨htype, create, hfind, hcreate⟩ | ⟨htype, hfind⟩
    · simp only [hfind]
      cases operands with
      | nil =>
        exact Or.inl ⟨fun s' word argv h => List.cons_ne_nil _ _ (hcomes s' word argv h).2, rfl⟩
      | cons word argv =>
        cases ha : actions.find word with
        | none =>
          refine Or.inl ⟨?_, by simp only [ha]; rfl⟩
          intro s' word' argv' h
          obtain ⟨rfl, he⟩ := hcomes s' word' argv' h
          cases he
          have hknown := h.known
          rw [ha] at hknown
          cases hknown
        | some action =>
          have hmade : ¬ (env.created = true ∧ env.connected = true ∧ env.actor = true) →
              ∀ s' word' argv', ¬ Comes env args s' word' argv' := fun hnot _ _ _ h => hnot h.made
          have hcreate := hcreate env (.start env)
          cases hcr : env.created with
          | false =>
            rw [hcr, if_neg Bool.false_ne_true] at hcreate
            refine Or.inl ⟨hmade (by simp [hcr]), ?_⟩
            simp only [ha]
            rw [bind_of_error hcreate]
            rfl
          | true =>
            rw [hcr, if_pos rfl] at hcreate
            simp only [ha]
            rw [bind_of_ok hcreate]
            rcases connect_eq env (.start env) with ⟨hco, hac, hok⟩ | ⟨hnot, stop, herror⟩
            · right
              refine ⟨s, word, argv, action, ⟨hc, htype, ⟨hcr, hco, hac⟩, by rw [ha]; rfl⟩, ha, ?_⟩
              exact bind_of_ok hok
            · refine Or.inl ⟨hmade fun h => hnot h.2, ?_⟩
              rw [bind_of_error herror]
              rfl
    · refine Or.inl ⟨?_, by simp only [hfind]; rfl⟩
      intro s' word argv h
      obtain ⟨rfl, _⟩ := hcomes s' word argv h
      exact htype h.bus
  · left
    refine ⟨?_, ?_⟩
    · intro s word argv h
      cases hc.symm.trans h.read
    · rw [Cli.main, bind_of_error hc]
      rfl

/-- The tool sends one message or none. It sends one exactly if its command line names
an action that sends, everything that the action needs is there and the message can be
shown; it is the message that the tool has shown first, with the operands behind the
action as its user data, and any tool that gets it shows the same text. -/
theorem sent_as_shown (env : Env) (args : List Bytes) :
    (handed (final (Cli.main env args (.start env))) = [] ∧
      ∀ s word argv, ¬ (Comes env args s word argv ∧ Sends env s word ∧
        ∃ text, Shows (sentMessage env s word argv) text)) ∨
    ∃ s word argv text, Comes env args s word argv ∧ Sends env s word ∧
      handed (final (Cli.main env args (.start env))) = [handover env s word argv] ∧
      (final (Cli.main env args (.start env))).log.head? = some text ∧
      (sentMessage env s word argv).userData = argv ∧
      ∃ msg, fromZmsg (toZmsg (sentMessage env s word argv)) = .ok msg ∧ Shows msg text := by
  rcases main_cases env args with ⟨hnone, hclient⟩ | ⟨s, word, argv, action, hcomes, haction, hmain⟩
  · left
    refine ⟨?_, fun s word argv h => hnone s word argv h.1⟩
    unfold handed
    rw [hclient]
    rfl
  · rw [hmain]
    rcases action_acts haction env s argv (w := .start env) rfl with
      ⟨text, hsends, hshows, hhanded, more, hlog⟩ | ⟨hnot, hhanded⟩
    · right
      refine ⟨s, word, argv, text, hcomes, hsends, hhanded, ?_, sentMessage_userData env s word argv,
        _, sentMessage_decodes env s word argv, hshows⟩
      rw [hlog]
      rfl
    · left
      refine ⟨hhanded, ?_⟩
      rintro s' word' argv' ⟨hcomes', hsends, hshows⟩
      cases hcomes.read.symm.trans hcomes'.read
      exact hnot ⟨hsends, hshows⟩

end Messagebus.Proofs.Tool
