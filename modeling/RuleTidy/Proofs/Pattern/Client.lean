import RuleTidy.Pattern.Client
import RuleTidy.Proofs.Platform.Lawful
import RuleTidy.Proofs.Tidy.Source

/-! Answers that are remembered. A program that always answers a command in one way gives the same
trees whatever was asked before, and to ask it changes no file. -/

namespace RuleTidy.Pattern

open Platform Tidy

def programAnswer (answer : Command → Except StartError Output) (executable : String)
    (request : Request) : Except LookupError String :=
  match request.arguments with
  | .error e => .error e
  | .ok arguments =>
    match answer ⟨executable, arguments⟩ with
    | .error (.staging fault) => .error (.stage fault)
    | .error (.spawning fault) => .error (.spawn executable fault)
    | .ok output => readOutput executable request.language output

def freshAsts (answer : Command → Except StartError Output) (executable : String) : AstSource Id :=
  fun language pattern => ExceptT.mk (pure do
    decodeDump (← programAnswer answer executable (.ofPattern language pattern)))

structure Memo.Holds (ask : Request → Except LookupError String) (memo : Memo) : Prop where
  dumps : ∀ language pattern text, memo.dumps.lookup (Request.ofPattern language pattern).key =
    some text → ask (.ofPattern language pattern) = .ok text
  trees : ∀ language pattern ast, memo.trees.lookup (Request.ofPattern language pattern).key =
    some ast → (ask (.ofPattern language pattern) >>= decodeDump) = .ok ast

/-- What is remembered once a request that was not answered before has come to a result. -/
def Memo.store (memo : Memo) (request : Request) : Except LookupError String → Memo
  | .ok text => { memo with dumps := (request.key, text) :: memo.dumps }
  | .error _ => memo

def Memo.storeTree (memo : Memo) (request : Request) : Except LookupError Ast → Memo
  | .ok ast => { memo with trees := (request.key, ast) :: memo.trees }
  | .error _ => memo

theorem Memo.Holds.empty (ask : Request → Except LookupError String) : Memo.Holds ask {} :=
  ⟨nofun, nofun⟩

theorem Request.ofPattern_inj {language pattern language' pattern' : String}
    (h : (ofPattern language pattern).key = (ofPattern language' pattern').key) :
    ofPattern language pattern = ofPattern language' pattern' := by
  have hlanguage : language = language' := congrArg RequestKey.language h
  have hpattern : pattern = pattern' := TargetKey.pattern.inj (congrArg RequestKey.target h)
  rw [hlanguage, hpattern]

variable {σ : Type} {host : Host (StateM σ)} {view : View σ} {executable : String}
  {contents : Contents} {memo : Memo} {s : σ}

/-- What is known while a program is asked: the answers so far, and what the files hold. -/
structure Known (view : View σ) (executable : String) (contents : Contents) (memo : Memo) (s : σ) :
    Prop where
  memo : memo.Holds (programAnswer view.answer executable)
  during : view.During s
  content : view.content s = contents

theorem Known.quiet {s' : σ} (h : Known view executable contents memo s) (hs : view.Quiet s s') :
    Known view executable contents memo s' :=
  ⟨h.memo, hs.during, hs.content.trans h.content⟩

def whileKnown (view : View σ) (executable : String) (contents : Contents) :
    Returning (StateT Memo (StateM σ)) where
  Returns x a := ∀ memo s, Known view executable contents memo s →
    ∃ memo' s', (x.run memo).run s = ((a, memo'), s') ∧ Known view executable contents memo' s'
  pure a memo s h := ⟨memo, s, rfl, h⟩
  bind {_ _ x f a b} hx hf memo s h := by
    obtain ⟨memo', s', hrun, h'⟩ := hx memo s h
    obtain ⟨memo'', s'', hrun', h''⟩ := hf memo' s' h'
    refine ⟨memo'', s'', ?_, h''⟩
    have hbind : ((x >>= f).run memo).run s =
        let result := (x.run memo).run s
        ((f result.1.1).run result.1.2).run result.2 := rfl
    rw [hbind, hrun]
    exact hrun'

theorem returns_invoke (hlaws : host.Lawful view) (request : Request)
    (h : Known view executable contents memo s) :
    ∃ s', (invoke host executable request).run s =
        (programAnswer view.answer executable request, s') ∧
      Known view executable contents memo s' := by
  unfold invoke programAnswer
  cases request.arguments with
  | error e => exact ⟨s, rfl, h⟩
  | ok arguments =>
      obtain ⟨s', hrun, hquiet⟩ := hlaws.run h.during ⟨executable, arguments⟩
      refine ⟨s', ?_, h.quiet hquiet⟩
      dsimp only
      rw [StateT.run_bind, hrun]
      cases view.answer ⟨executable, arguments⟩ with
      | error e => cases e <;> rfl
      | ok output => rfl

theorem run_dump_steps {m : Type → Type} [Monad m] (host : Host m) (request : Request)
    (memo : Memo) :
    (dump host executable request).run.run memo =
      match memo.dumps.lookup request.key with
      | some text => pure (.ok text, memo)
      | none => do
        match ← invoke host executable request with
        | .error e => return (.error e, memo)
        | .ok text => return (.ok text, { memo with dumps := (request.key, text) :: memo.dumps }) :=
  rfl

theorem run_dump {m : Type → Type} [Monad m] (host : Host m) (request : Request) (memo : Memo) :
    (dump host executable request).run.run memo =
      match memo.dumps.lookup request.key with
      | some text => pure (.ok text, memo)
      | none => do
        let result ← invoke host executable request
        return (result, memo.store request result) := by
  rw [run_dump_steps]
  split
  · rfl
  · refine congrArg (bind (invoke host executable request)) (funext fun result => ?_)
    cases result <;> rfl

theorem Memo.Holds.store {ask : Request → Except LookupError String} (h : memo.Holds ask)
    (language pattern : String) :
    (memo.store (.ofPattern language pattern) (ask (.ofPattern language pattern))).Holds ask := by
  cases hask : ask (.ofPattern language pattern) with
  | error e => exact h
  | ok text =>
      refine ⟨fun language' pattern' found hfound => ?_, h.trees⟩
      rw [Memo.store, List.lookup_cons] at hfound
      split at hfound
      · next heq => rw [Request.ofPattern_inj (eq_of_beq heq), hask, Option.some.inj hfound]
      · exact h.dumps language' pattern' found hfound

theorem Memo.Holds.storeTree {ask : Request → Except LookupError String} (h : memo.Holds ask)
    (language pattern : String) :
    (memo.storeTree (.ofPattern language pattern)
      (ask (.ofPattern language pattern) >>= decodeDump)).Holds ask := by
  cases hask : ask (.ofPattern language pattern) >>= decodeDump with
  | error e => exact h
  | ok ast =>
      refine ⟨h.dumps, fun language' pattern' found hfound => ?_⟩
      rw [Memo.storeTree, List.lookup_cons] at hfound
      split at hfound
      · next heq => rw [Request.ofPattern_inj (eq_of_beq heq), hask, Option.some.inj hfound]
      · exact h.trees language' pattern' found hfound

theorem returns_dump (hlaws : host.Lawful view) (language pattern : String) :
    (whileKnown view executable contents).Returns
      (dump host executable (.ofPattern language pattern)).run
      (programAnswer view.answer executable (.ofPattern language pattern)) := by
  intro memo s h
  rw [run_dump]
  cases hlookup : memo.dumps.lookup (Request.ofPattern language pattern).key with
  | some text =>
      refine ⟨memo, s, ?_, h⟩
      rw [h.memo.dumps language pattern text hlookup]
      rfl
  | none =>
      obtain ⟨s', hinvoke, h'⟩ := returns_invoke hlaws (.ofPattern language pattern) h
      dsimp only
      rw [StateT.run_bind, hinvoke]
      exact ⟨_, s', rfl, h'.memo.store language pattern, h'.during, h'.content⟩

theorem run_programAst_steps {m : Type → Type} [Monad m] (host : Host m) (request : Request)
    (memo : Memo) :
    (programAst host executable request).run.run memo =
      match memo.trees.lookup request.key with
      | some ast => pure (.ok ast, memo)
      | none => do
        match ← (dump host executable request).run.run memo with
        | (.error e, memo) => return (.error e, memo)
        | (.ok text, memo) =>
          match decodeDump text with
          | .error e => return (.error e, memo)
          | .ok ast => return (.ok ast, { memo with trees := (request.key, ast) :: memo.trees }) :=
  rfl

theorem run_programAst {m : Type → Type} [Monad m] (host : Host m) (request : Request)
    (memo : Memo) :
    (programAst host executable request).run.run memo =
      match memo.trees.lookup request.key with
      | some ast => pure (.ok ast, memo)
      | none => do
        match ← (dump host executable request).run.run memo with
        | (.error e, memo) => return (.error e, memo)
        | (.ok text, memo) =>
          return (decodeDump text, memo.storeTree request (decodeDump text)) := by
  rw [run_programAst_steps]
  split
  · rfl
  · refine congrArg (bind ((dump host executable request).run.run memo)) (funext fun found => ?_)
    obtain ⟨result, memo⟩ := found
    cases result with
    | error e => rfl
    | ok text =>
        dsimp only
        cases decodeDump text <;> rfl

/-- The trees of a program do not depend on what it was asked before. -/
theorem simulates_programAsts (hlaws : host.Lawful view) :
    Simulates (whileKnown view executable contents) (programAsts host executable)
      (freshAsts view.answer executable) := by
  intro language pattern memo s h
  have hfresh : (freshAsts view.answer executable language pattern).run.run =
      programAnswer view.answer executable (.ofPattern language pattern) >>= decodeDump := rfl
  rw [hfresh]
  unfold programAsts
  rw [run_programAst]
  cases hlookup : memo.trees.lookup (Request.ofPattern language pattern).key with
  | some ast =>
      refine ⟨memo, s, ?_, h⟩
      rw [h.memo.trees language pattern ast hlookup]
      rfl
  | none =>
      obtain ⟨memo', s', hdump, h'⟩ := returns_dump hlaws language pattern memo s h
      dsimp only
      rw [StateT.run_bind, hdump]
      have hstore := h'.memo.storeTree language pattern
      cases hanswer : programAnswer view.answer executable (.ofPattern language pattern) with
      | error e => exact ⟨memo', s', rfl, h'⟩
      | ok text =>
          rw [hanswer] at hstore
          exact ⟨_, s', rfl, hstore, h'.during, h'.content⟩

end RuleTidy.Pattern
