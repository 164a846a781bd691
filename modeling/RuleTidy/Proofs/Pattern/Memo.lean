import Mathlib.Data.List.Induction
import RuleTidy.Proofs.Pattern.Client

/-! What is remembered of a program that may answer the same request in different ways. The first
answer that makes sense is the answer from then on, and one that makes no sense is asked for again. -/

namespace RuleTidy

namespace Platform

structure Invocation where
  command : Command
  outcome : Except StartError Output

def Invocation.text? (invocation : Invocation) : Option String :=
  match invocation.outcome with
  | .ok ⟨some 0, stdout, _⟩ => (Text.Utf8.decode stdout).toOption
  | _ => none

/-- A host that keeps a record of the commands that it runs, in their order. -/
def Host.recorded {σ : Type} (host : Host (StateM σ)) :
    Host (StateT (List Invocation) (StateM σ)) :=
  { host.lift with
    run := fun command => do
      let outcome ← StateT.lift (host.run command)
      modify (· ++ [⟨command, outcome⟩])
      return outcome }

end Platform

namespace Pattern

open Platform

variable {σ : Type} {host : Host (StateM σ)} {executable : String}

/-! ### Requests and commands -/

def Request.command? (executable : String) (request : Request) : Option Command :=
  request.arguments.toOption.map (⟨executable, ·⟩)

/-- What a program is asked for by its arguments. -/
def keyOf? (arguments : List Argument) : Option RequestKey :=
  let (json, options) := match arguments with
    | .word "-json" :: options => (true, options)
    | options => (false, options)
  match options with
  | [.word "-lang", .word language, .word "-dump_pattern", .staged text] =>
    some ⟨language, .pattern text, json⟩
  | [.word "-lang", .word language, .word "-dump_ast", .word path] =>
    some ⟨language, .files [pathComponents path], json⟩
  | _ => none

theorem keyOf?_arguments {request : Request} {arguments : List Argument}
    (h : request.arguments = .ok arguments) : keyOf? arguments = some request.key := by
  obtain ⟨language, target, json⟩ := request
  rcases target with text | _ | ⟨path, _ | ⟨other, more⟩⟩ <;>
    simp only [Request.arguments, reduceCtorEq, Except.ok.injEq] at h <;>
      subst h <;> cases json <;> rfl

theorem keyOf?_command? {request : Request} {command : Command}
    (h : request.command? executable = some command) :
    keyOf? command.arguments = some request.key := by
  obtain ⟨arguments, harguments, rfl⟩ := Option.map_eq_some_iff.1 h
  exact keyOf?_arguments (toOption_eq_some.1 harguments)

/-! ### Questions and answers -/

inductive Call where
  | dump (request : Request)
  | tree (language pattern : String)

inductive Answer where
  | text (text : String)
  | tree (ast : Ast)

def Call.request : Call → Request
  | .dump request => request
  | .tree language pattern => .ofPattern language pattern

def Call.key (call : Call) : RequestKey := call.request.key

def Call.read : Call → String → Except LookupError Answer
  | .dump _, text => .ok (.text text)
  | .tree .., text => (decodeDump text).map .tree

def Call.run {m : Type → Type} [Monad m] (host : Host m) (executable : String) :
    Call → StateT Memo m (Except LookupError Answer)
  | .dump request => return (← (Pattern.dump host executable request).run).map .text
  | .tree language pattern => return (← (programAsts host executable language pattern).run).map .tree

/-! ### What the record tells -/

def textFor? (key : RequestKey) (invocation : Invocation) : Option String :=
  if keyOf? invocation.command.arguments = some key then invocation.text? else none

def firstText? (key : RequestKey) (record : List Invocation) : Option String :=
  record.findSome? (textFor? key)

def textCount (key : RequestKey) (record : List Invocation) : Nat :=
  record.countP fun invocation => (textFor? key invocation).isSome

variable {request : Request} {key : RequestKey} {record : List Invocation}
  {invocation : Invocation} {text : String}

theorem firstText?_append :
    firstText? key (record ++ [invocation]) =
      (firstText? key record).or (textFor? key invocation) := by
  rw [firstText?, List.findSome?_append, List.findSome?_singleton]
  rfl

theorem textCount_append :
    textCount key (record ++ [invocation]) =
      textCount key record + if (textFor? key invocation).isSome then 1 else 0 := by
  rw [textCount, List.countP_append, List.countP_singleton]
  rfl

theorem textCount_eq_zero (h : firstText? key record = none) : textCount key record = 0 := by
  rw [textCount, List.countP_eq_zero]
  intro invocation hinvocation
  rw [List.findSome?_eq_none_iff.1 h invocation hinvocation]
  exact Bool.false_ne_true

theorem textFor?_self (h : request.command? executable = some invocation.command) :
    textFor? request.key invocation = invocation.text? :=
  if_pos (keyOf?_command? h)

theorem textFor?_of_ne (h : request.command? executable = some invocation.command)
    (hne : key ≠ request.key) : textFor? key invocation = none :=
  if_neg fun hkey => hne (Option.some.inj (hkey.symm.trans (keyOf?_command? h)))

/-! ### One question -/

/-- What a request comes to, and the record before and after. The program is asked unless it has
given a text for the request before. -/
inductive Asked (executable : String) (request : Request) (record : List Invocation) :
    Except LookupError String → List Invocation → Prop
  | known {text : String} (first : firstText? request.key record = some text) :
      Asked executable request record (.ok text) record
  | senseless {e : LookupError} (none : request.command? executable = none) :
      Asked executable request record (.error e) record
  | given {invocation : Invocation} {text : String}
      (unknown : firstText? request.key record = none)
      (command : request.command? executable = some invocation.command)
      (sense : invocation.text? = some text) :
      Asked executable request record (.ok text) (record ++ [invocation])
  | failed {invocation : Invocation} {e : LookupError}
      (unknown : firstText? request.key record = none)
      (command : request.command? executable = some invocation.command)
      (nonsense : invocation.text? = none) :
      Asked executable request record (.error e) (record ++ [invocation])

/-- What is remembered is what the record tells, which has no second text for any key. -/
structure Memo.Remembers (memo : Memo) (record : List Invocation) : Prop where
  dumps : ∀ key, memo.dumps.lookup key = firstText? key record
  trees : ∀ key ast, memo.trees.lookup key = some ast →
    ∃ text, firstText? key record = some text ∧ decodeDump text = .ok ast
  once : ∀ key, textCount key record ≤ 1

variable {memo : Memo} {result : Except LookupError String} {after : List Invocation}

theorem Asked.firstText?_eq (h : Asked executable request record result after)
    (hfirst : firstText? key record = some text) : firstText? key after = some text := by
  cases h with
  | known first => exact hfirst
  | senseless none => exact hfirst
  | given unknown command sense => rw [firstText?_append, hfirst, Option.some_or]
  | failed unknown command nonsense => rw [firstText?_append, hfirst, Option.some_or]

theorem Asked.firstText?_self (h : Asked executable request record (.ok text) after) :
    firstText? request.key after = some text := by
  cases h with
  | known first => exact first
  | given unknown command sense =>
      rw [firstText?_append, unknown, Option.none_or, textFor?_self command, sense]

theorem Memo.Remembers.store (h : memo.Remembers record)
    (hunknown : firstText? request.key record = none)
    (hasked : Asked executable request record result after) :
    (memo.store request result).Remembers after := by
  -- what was known stays known, as a record only grows at its end
  have htrees : ∀ other ast, memo.trees.lookup other = some ast →
      ∃ text, firstText? other after = some text ∧ decodeDump text = .ok ast := by
    intro other ast hlookup
    obtain ⟨text, hfirst, hdecode⟩ := h.trees other ast hlookup
    exact ⟨text, hasked.firstText?_eq hfirst, hdecode⟩
  cases hasked with
  | known first =>
      rw [hunknown] at first
      cases first
  | senseless none => exact ⟨h.dumps, htrees, h.once⟩
  | @given invocation text unknown command sense =>
      have hself : textFor? request.key invocation = some text := by
        rw [textFor?_self command, sense]
      refine ⟨fun other => ?_, htrees, fun other => ?_⟩
      · rw [Memo.store, List.lookup_cons, firstText?_append]
        by_cases heq : other = request.key
        · subst heq
          rw [beq_self_eq_true, unknown, Option.none_or, hself]
        · rw [beq_eq_false_iff_ne.2 heq, h.dumps, textFor?_of_ne command heq, Option.or_none]
      · rw [textCount_append]
        by_cases heq : other = request.key
        · subst heq
          rw [textCount_eq_zero unknown, hself]
          exact Nat.le_refl 1
        · rw [textFor?_of_ne command heq]
          exact h.once other
  | @failed invocation e unknown command nonsense =>
      have hnone : ∀ other, textFor? other invocation = none := by
        intro other
        by_cases heq : other = request.key
        · subst heq
          rw [textFor?_self command, nonsense]
        · exact textFor?_of_ne command heq
      refine ⟨fun other => ?_, htrees, fun other => ?_⟩
      · rw [Memo.store, h.dumps, firstText?_append, hnone, Option.or_none]
      · rw [textCount_append, hnone]
        exact h.once other

theorem readOutput_eq_ok {command : Command} {output : Output} {language : String} :
    readOutput executable language output = .ok text ↔
      (Invocation.mk command (.ok output)).text? = some text := by
  obtain ⟨status, stdout, stderr⟩ := output
  unfold readOutput Invocation.text?
  split
  · next hstatus =>
      obtain rfl : status = some 0 := hstatus
      rw [mapError_eq_ok]
      exact toOption_eq_some.symm
  · next hstatus =>
      have hother : status ≠ some 0 := hstatus
      simp only [reduceCtorEq, false_iff]
      split
      · next heq =>
          cases heq
          exact absurd rfl hother
      · exact nofun

variable (host)

theorem asked_invoke (world : σ) (hunknown : firstText? request.key record = none) :
    ∃ result after world',
      ((invoke host.recorded executable request).run record).run world =
          ((result, after), world') ∧
        (invoke host executable request).run world = (result, world') ∧
        Asked executable request record result after := by
  unfold invoke
  cases harguments : request.arguments with
  | error e =>
      refine ⟨.error e, record, world, rfl, rfl, .senseless ?_⟩
      rw [Request.command?, harguments]
      rfl
  | ok arguments =>
      have hcommand : request.command? executable = some ⟨executable, arguments⟩ := by
        rw [Request.command?, harguments]
        rfl
      have hrun : ((host.recorded.run ⟨executable, arguments⟩).run record).run world =
          let ran := (host.run ⟨executable, arguments⟩).run world
          ((ran.1, record ++ [⟨⟨executable, arguments⟩, ran.1⟩]), ran.2) := rfl
      obtain ⟨outcome, world', hran⟩ :
          ∃ outcome world', (host.run ⟨executable, arguments⟩).run world = (outcome, world') :=
        ⟨_, _, rfl⟩
      rw [hran] at hrun
      dsimp only at hrun ⊢
      rw [StateT.run_bind, StateT.run_bind, StateT.run_bind, hrun, hran]
      rcases outcome with (fault | fault) | output
      · exact ⟨_, _, world', rfl, rfl, .failed hunknown hcommand rfl⟩
      · exact ⟨_, _, world', rfl, rfl, .failed hunknown hcommand rfl⟩
      · refine ⟨_, _, world', rfl, rfl, ?_⟩
        cases hresult : readOutput executable request.language output with
        | ok text => exact .given hunknown hcommand (readOutput_eq_ok.1 hresult)
        | error e =>
            refine .failed hunknown hcommand (Option.eq_none_iff_forall_ne_some.2 fun text h => ?_)
            rw [readOutput_eq_ok.2 h] at hresult
            cases hresult

theorem asked_dump (world : σ) (h : memo.Remembers record) (request : Request) :
    ∃ result memo' after world',
      (((dump host.recorded executable request).run.run memo).run record).run world =
          (((result, memo'), after), world') ∧
        ((dump host executable request).run.run memo).run world = ((result, memo'), world') ∧
        Asked executable request record result after ∧ memo'.Remembers after := by
  rw [run_dump, run_dump]
  cases hlookup : memo.dumps.lookup request.key with
  | some text =>
      rw [h.dumps] at hlookup
      exact ⟨.ok text, memo, record, world, rfl, rfl, .known hlookup, h⟩
  | none =>
      rw [h.dumps] at hlookup
      obtain ⟨result, after, world', hrecorded, hrun, hasked⟩ :=
        asked_invoke host world hlookup
      refine ⟨result, memo.store request result, after, world', ?_, ?_, hasked,
        h.store hlookup hasked⟩
      · dsimp only
        rw [StateT.run_bind, StateT.run_bind, hrecorded]
        rfl
      · dsimp only
        rw [StateT.run_bind, hrun]
        rfl

theorem Memo.Remembers.storeTree (h : memo.Remembers record)
    (hfirst : firstText? request.key record = some text) :
    (memo.storeTree request (decodeDump text)).Remembers record := by
  cases hdecode : decodeDump text with
  | error e => exact h
  | ok ast =>
      refine ⟨h.dumps, fun other found hfound => ?_, h.once⟩
      rw [Memo.storeTree, List.lookup_cons] at hfound
      split at hfound
      · next heq =>
          obtain rfl := eq_of_beq heq
          obtain rfl := Option.some.inj hfound
          exact ⟨text, hfirst, hdecode⟩
      · exact h.trees other found hfound

theorem asked_tree (world : σ) (h : memo.Remembers record) (language pattern : String) :
    ∃ result memo' after world',
      (((programAsts host.recorded executable language pattern).run.run memo).run record).run
          world = (((result >>= decodeDump, memo'), after), world') ∧
        ((programAsts host executable language pattern).run.run memo).run world =
          ((result >>= decodeDump, memo'), world') ∧
        Asked executable (Call.tree language pattern).request record result after ∧
        memo'.Remembers after := by
  let request := Request.ofPattern language pattern
  unfold programAsts
  rw [run_programAst, run_programAst]
  cases hlookup : memo.trees.lookup request.key with
  | some ast =>
      -- a tree is remembered with the text it was decoded from
      obtain ⟨text, hfirst, hdecode⟩ := h.trees request.key ast hlookup
      have hread : (Except.ok text >>= decodeDump) = .ok ast := hdecode
      refine ⟨.ok text, memo, record, world, ?_, ?_, .known hfirst, h⟩
      · rw [hread]
        rfl
      · rw [hread]
        rfl
  | none =>
      obtain ⟨result, memo', after, world', hrecorded, hrun, hasked, h'⟩ :=
        asked_dump host world h request
      dsimp only
      rw [StateT.run_bind, StateT.run_bind, StateT.run_bind, hrecorded, hrun]
      cases result with
      | error e => exact ⟨.error e, memo', after, world', rfl, rfl, hasked, h'⟩
      | ok text =>
          exact ⟨.ok text, memo'.storeTree request (decodeDump text), after, world', rfl, rfl,
            hasked, h'.storeTree hasked.firstText?_self⟩

theorem asked_call (world : σ) (h : memo.Remembers record) (call : Call) :
    ∃ result memo' after world',
      (((call.run host.recorded executable).run memo).run record).run world =
          (((result >>= call.read, memo'), after), world') ∧
        ((call.run host executable).run memo).run world = ((result >>= call.read, memo'), world') ∧
        Asked executable call.request record result after ∧
        memo'.Remembers after := by
  cases call with
  | dump request =>
      obtain ⟨result, memo', after, world', hrecorded, hrun, hasked, h'⟩ :=
        asked_dump host world h request
      refine ⟨result, memo', after, world', ?_, ?_, hasked, h'⟩
      · rw [Call.run, StateT.run_bind, StateT.run_bind, StateT.run_bind, hrecorded]
        cases result <;> rfl
      · rw [Call.run, StateT.run_bind, StateT.run_bind, hrun]
        cases result <;> rfl
  | tree language pattern =>
      obtain ⟨result, memo', after, world', hrecorded, hrun, hasked, h'⟩ :=
        asked_tree host world h language pattern
      have hread : (result >>= (Call.tree language pattern).read) =
          (result >>= decodeDump).map .tree := map_of_bind.symm
      refine ⟨result, memo', after, world', ?_, ?_, hasked, h'⟩
      · rw [hread, Call.run, StateT.run_bind, StateT.run_bind, StateT.run_bind, hrecorded]
        rfl
      · rw [hread, Call.run, StateT.run_bind, StateT.run_bind, hrun]
        rfl

/-! ### Any number of questions -/

structure Client (σ : Type) where
  memo : Memo := {}
  record : List Invocation := []
  answers : List (Call × Except LookupError Answer) := []
  world : σ

def Client.ask (host : Host (StateM σ)) (executable : String) (client : Client σ) (call : Call) :
    Client σ :=
  let (((answer, memo), record), world) :=
    (((call.run host.recorded executable).run client.memo).run client.record).run client.world
  ⟨memo, record, client.answers ++ [(call, answer)], world⟩

/-- Every answer is read from the first text for its request. -/
structure Client.Consistent (client : Client σ) : Prop where
  memo : client.memo.Remembers client.record
  answers : ∀ call answer, (call, .ok answer) ∈ client.answers →
    ∃ text, firstText? call.key client.record = some text ∧ call.read text = .ok answer

theorem Client.Consistent.exists_ask {client : Client σ} (h : client.Consistent)
    (call : Call) :
    ∃ result, Asked executable call.request client.record result
        (client.ask host executable call).record ∧
      (client.ask host executable call).answers =
        client.answers ++ [(call, result >>= call.read)] ∧
      ((call.run host executable).run client.memo).run client.world =
        ((result >>= call.read, (client.ask host executable call).memo),
          (client.ask host executable call).world) ∧
      (client.ask host executable call).memo.Remembers
        (client.ask host executable call).record := by
  obtain ⟨result, memo', after, world', hrecorded, hrun, hasked, h'⟩ :=
    asked_call host client.world h.memo call
  have hask : client.ask host executable call =
      ⟨memo', after, client.answers ++ [(call, result >>= call.read)], world'⟩ := by
    unfold Client.ask
    rw [hrecorded]
  rw [hask]
  exact ⟨result, hasked, rfl, hrun, h'⟩

theorem Client.Consistent.ask {client : Client σ} (h : client.Consistent)
    (call : Call) : (client.ask host executable call).Consistent := by
  obtain ⟨result, hasked, hanswers, -, hmemo⟩ := h.exists_ask host call
  refine ⟨hmemo, fun other answer hmem => ?_⟩
  rw [hanswers] at hmem
  rcases List.mem_append.1 hmem with hold | hnew
  · obtain ⟨text, hfirst, hread⟩ := h.answers other answer hold
    exact ⟨text, hasked.firstText?_eq hfirst, hread⟩
  · obtain ⟨rfl, hanswer⟩ := Prod.mk.inj (List.mem_singleton.1 hnew)
    obtain ⟨text, rfl, hread⟩ := bind_eq_ok.1 hanswer.symm
    exact ⟨text, hasked.firstText?_self, hread⟩

end Pattern

end RuleTidy
