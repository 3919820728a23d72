import RobotScript.Session.Walker

/-!
# Structured meaning of programs

What a statement tree means, said by recursion on the tree and without frames. `Executes` is about
one statement and `Runs` about the statements of a block; both start from a state, end in a state
and say how the end was reached. `looped` tells whether a loop encloses them.

A host can be watched: `logged` keeps what it is asked to do, in order.
-/

namespace RobotScript

/-- How a block comes to its end: after its last statement, or by a jump out of it to the innermost
loop, to leave that or to go on with its next pass. -/
inductive Exit where
  | done | leave | again
deriving DecidableEq, Repr

namespace Host

variable {σ : Type} (host : Host σ)

/-- What a condition comes to: its truth, or nothing but one report of its fault. -/
inductive Decides (line : Nat) : Condition → σ → Option Bool → σ → Prop
  | unread {fault s} : Decides line (.error fault) s none (host.error fault.message line s)
  | fault {e fault s t} (failed : host.evaluate e s = (.error fault, t)) :
    Decides line (.ok e) s none (host.error fault.message line t)
  | value {e v s t} (read : host.evaluate e s = (.ok v, t)) :
    Decides line (.ok e) s (some v.truthy) t

/-- Statements without parts. Each has its effect or, if it fails, makes one report. -/
inductive Acts : Stmt → σ → σ → Prop
  | strayEnd {line s} : Acts (.strayEnd line) s (host.warning "END without BEGIN" line s)
  | strayElse {line s} : Acts (.strayElse line) s (host.warning "ELSE without IF" line s)
  | invalid {line fault s} : Acts (.invalid line fault) s (host.error fault.message line s)
  | set {line name e v s t} (read : host.evaluate e s = (.ok v, t)) :
    Acts (.set line name e) s (host.assign name v t)
  | setFault {line name e fault s t} (failed : host.evaluate e s = (.error fault, t)) :
    Acts (.set line name e) s (host.error fault.message line t)
  | print {line newline e v s t} (read : host.evaluate e s = (.ok v, t)) :
    Acts (.print line newline e) s (host.print newline v.display t)
  | printFault {line newline e fault s t} (failed : host.evaluate e s = (.error fault, t)) :
    Acts (.print line newline e) s (host.error fault.message line t)
  | command {line text s t} (carried : host.command text s = (.ok .finished, t)) :
    Acts (.command line text) s t
  | drive {line text job s t} (carried : host.command text s = (.ok (.deferred job), t)) :
    Acts (.command line text) s (host.drive job t)
  | commandFault {line text fault s t} (failed : host.command text s = (.error fault, t)) :
    Acts (.command line text) s (host.error fault.message line t)

mutual

/-- Every statement, and every pass of a loop, begins by making its line the current one. -/
inductive Executes : Bool → Stmt → σ → Exit → σ → Prop
  | act {looped stmt s t} (acts : host.Acts stmt (host.jump stmt.line s) t) :
    Executes looped stmt s .done t
  | branchThen {looped line c body otherwise s t u exit}
    (test : host.Decides line c (host.jump line s) (some true) t)
    (run : Runs looped body t exit u) :
    Executes looped (.branch line c body otherwise) s exit u
  | branchElse {looped line c body otherwise s t u exit}
    (test : host.Decides line c (host.jump line s) (some false) t)
    (run : Runs looped otherwise t exit u) :
    Executes looped (.branch line c body (some otherwise)) s exit u
  | branchSkip {looped line c body s t}
    (test : host.Decides line c (host.jump line s) (some false) t) :
    Executes looped (.branch line c body none) s .done t
  | branchFault {looped line c body otherwise s t}
    (test : host.Decides line c (host.jump line s) none t) :
    Executes looped (.branch line c body otherwise) s .done t
  | loopEnd {looped line c body s t holds}
    (test : host.Decides line c (host.jump line s) holds t) (ended : holds ≠ some true) :
    Executes looped (.loop line c body) s .done t
  | loopLeave {looped line c body s t u}
    (test : host.Decides line c (host.jump line s) (some true) t)
    (pass : Runs true body t .leave u) :
    Executes looped (.loop line c body) s .done u
  | loopNext {looped line c body s t u v exit}
    (test : host.Decides line c (host.jump line s) (some true) t)
    (pass : Runs true body t exit u) (stays : exit ≠ .leave)
    (rest : Executes looped (.loop line c body) u .done v) :
    Executes looped (.loop line c body) s .done v
  | foreverLeave {looped line body s t} (pass : Runs true body (host.jump line s) .leave t) :
    Executes looped (.forever line body) s .done t
  | foreverNext {looped line body s t u exit}
    (pass : Runs true body (host.jump line s) exit t) (stays : exit ≠ .leave)
    (rest : Executes looped (.forever line body) t .done u) :
    Executes looped (.forever line body) s .done u
  | group {looped line body s t exit} (run : Runs looped body (host.jump line s) exit t) :
    Executes looped (.group line true body) s exit t
  | groupOpen {looped line body s t exit}
    (run : Runs looped body (host.warning "Expected END" line (host.jump line s)) exit t) :
    Executes looped (.group line false body) s exit t
  | leave {line s} : Executes true (.leave line) s .leave (host.jump line s)
  | leaveStray {line s} :
    Executes false (.leave line) s .done
      (host.warning "BREAK outside of a loop" line (host.jump line s))
  | again {line s} : Executes true (.again line) s .again (host.jump line s)
  | againStray {line s} :
    Executes false (.again line) s .done
      (host.warning "CONTINUE outside of a loop" line (host.jump line s))

inductive Runs : Bool → List Stmt → σ → Exit → σ → Prop
  | nil {looped s} : Runs looped [] s .done s
  | next {looped stmt rest s t u exit} (first : Executes looped stmt s .done t)
    (run : Runs looped rest t exit u) : Runs looped (stmt :: rest) s exit u
  /-- A jump discards the rest of the block. -/
  | cut {looped stmt rest s t exit} (first : Executes looped stmt s exit t)
    (jumps : exit ≠ .done) : Runs looped (stmt :: rest) s exit t

end

/-! ### Watching a host -/

end Host

/-- What a walk does to its surroundings. -/
inductive Event where
  | jump (line : Nat)
  | assign (name : String) (value : Value)
  | print (newline : Bool) (text : String)
  | command (text : String)
  | drive (job : Job Float32)

namespace Host

variable {σ : Type} (host : Host σ)

/-- The host that also keeps what it is asked to do, in order. -/
def logged : Host (σ × List Event) where
  running r := host.running r.1
  jump line r := (host.jump line r.1, r.2 ++ [.jump line])
  evaluate e r := ((host.evaluate e r.1).1, (host.evaluate e r.1).2, r.2)
  assign name value r := (host.assign name value r.1, r.2 ++ [.assign name value])
  print newline text r := (host.print newline text r.1, r.2 ++ [.print newline text])
  command text r :=
    ((host.command text r.1).1, (host.command text r.1).2, r.2 ++ [.command text])
  drive job r := (host.drive job r.1, r.2 ++ [.drive job])

end Host

end RobotScript
