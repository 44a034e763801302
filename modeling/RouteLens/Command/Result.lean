import RouteLens.Command.Request
import RouteLens.Document.Writing
import RouteLens.Value.Json

/-!
# Results

The answers to requests as values, and the texts in which they are shown.
-/

namespace RouteLens

variable {edition : Nat} [CharacterNames edition]

/-- A dictionary with text keys. -/
def Value.record (fields : List (String × Value)) : Value :=
  .dict (Entries.ofTexts fields)

/-- A text or nothing. -/
def Value.ofText? (s : Option String) : Value :=
  s.elim .null .text

/-- A list of texts. -/
def Value.ofTexts (ss : List String) : Value :=
  .list (ss.map .text)

/-- A collaborator call as a value. -/
def ServiceCall.toValue (c : ServiceCall) : Value :=
  .record [("field", .text c.field), ("method", .text c.method),
    ("target_type", .ofText? c.targetType)]

/-- A call site as a value. -/
def CallSite.toValue (c : CallSite) : Value :=
  .record [("receiver", .text c.receiver), ("method", .text c.method), ("in_loop", .bool c.inLoop),
    ("snippet", .ofText? c.snippet), ("line", .int c.line)]

/-- A finding about loops as a value. -/
def LoopFinding.toValue (f : LoopFinding) : Value :=
  .record [("suspect", .bool f.suspect), ("sample", .ofText? f.sample)]

/-- A representative exception as a value. -/
def ExceptionHint.toValue (h : ExceptionHint) : Value :=
  .record [("name", .text h.name), ("source_hint", .ofText? h.source)]

/-- The facts about a method as entries. -/
def MethodFacts.fields (f : MethodFacts) : List (String × Value) :=
  [("class_name", .text f.className), ("method_name", .text f.methodName),
   ("param_type_texts", .ofTexts f.paramTypes), ("return_type_text", .text f.returnType),
   ("calls", .list (f.calls.map CallSite.toValue)), ("exception_hints", .ofTexts f.exceptionHints),
   ("throws_detected", .ofTexts f.throwsDetected), ("uses_transaction", .bool f.usesTransaction),
   ("is_async", .bool f.isAsync), ("param_count", .int f.paramTypes.length)]

/-- A finding as a value. -/
def Issue.toValue (i : Issue) : Value :=
  .record ([("code", .text i.code), ("severity", .text i.severity.name),
    ("message", .text i.message)] ++ (i.hint.map fun h => ("hint", Value.text h)).toList)

/-- A report as a value, with the time at which it was made. -/
def Report.toValue (r : Report) (time : String) : Value :=
  let http := if r.http.isEmpty then []
    else [("http", .record (r.http.map fun e => (e.1, .text e.2)))]
  .record ([("route_key", .text r.routeKey)] ++ http ++
    [("issues", .list (r.issues.map Issue.toValue)),
     ("summary", .record (r.summary.map fun e => (e.1.name, .int e.2))),
     ("generated_at", .text time)])

/-- Answers a question about the project of a root; nothing if the target cannot be found. -/
def Question.answer (q : Question) (root : Path) (time : String) : Action (Option Value) := do
  let ask {α : Type} (i : Inquiry α) : Action α := Session.run root i
  let rules := (← get).rules
  match q with
  | .trace className methodName true =>
    let calls ← ask (traceServiceCalls className methodName)
    return calls.map fun cs => .list (cs.map ServiceCall.toValue)
  | .trace className methodName false =>
    return (← ask (firstServiceCall className methodName)).map ServiceCall.toValue
  | .analyze className methodName =>
    match (← Session.analyze root className methodName).1 with
    | none => return none
    | some facts =>
      let loops ← ask (methodLoopFinding rules.config className methodName)
      let score ← ask (methodComplexity className methodName)
      return some (.record (facts.fields ++
        [("complexity", score.elim .null fun n => .int n),
         ("loop_bound_remote_call", loops.elim .null LoopFinding.toValue)]))
  | .exception className =>
    return (← ask (classException (.ok rules.exceptions) className)).map ExceptionHint.toValue
  | .sample className maxDepth => Session.samplePayload root className maxDepth
  | .sampleHandler className methodName =>
    let payloads ← Session.sampleHandler root className methodName
    return payloads.map Value.record
  | .feedback route => return some ((← ask (routeReport rules route)).toValue time)

/-- A result as text. -/
def ResultFormat.show (f : ResultFormat) (v : Value) : Except Fault String :=
  match f with
  | .json => v.toJson
  | .yaml => Document.write v

end RouteLens
