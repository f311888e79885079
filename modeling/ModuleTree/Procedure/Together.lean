import ModuleTree.Procedure
/- Several procedures at work in the same surroundings. Each asks its calls one after another, and
   any of them may be answered next, so between two calls of one there may be any number of calls
   of the others. -/
namespace ModuleTree

structure Together (σ α : Type) where
  surroundings : σ
  works : List (Procedure α)

inductive Together.Step {σ α : Type} (answer : (c : Call) → σ → c.Answer × σ) (s : Together σ α) :
    Together σ α → Prop where
  | answered {before after : List (Procedure α)} {call : Call}
      {next : call.Answer → Procedure α} (works : s.works = before ++ .ask call next :: after) :
      Step answer s
        { surroundings := (answer call s.surroundings).2
          works := before ++ next (answer call s.surroundings).1 :: after }

end ModuleTree
