import Parlance.Script.Node

/-! Marks for the `on` statements of a tree. Two of them may say the same and are still two, so each
gets a number of its own, and whoever keeps the tree keeps the numbers. -/

namespace Parlance.Node

mutual
def cues : Node → List Cue
  | .literal _ | .path _ => []
  | .assign _ value => cues value
  | .binary _ left right => cues left ++ cues right
  | .unary _ operand => cues operand
  | .block statements => cuesAll statements
  | .branch condition yes no =>
    cues condition ++ cues yes ++ match no with
      | some node => cues node
      | none => []
  | .whileLoop condition body => cues condition ++ cues body
  | .forLoop init condition step body => cues init ++ cues condition ++ cues step ++ cues body
  | .functionDef _ _ body => cues body
  | .returnWith value => cues value
  | .call _ args => cuesAll args
  | .handler cue body => cue :: cues body
  | .trigger _ args => cuesAll args
def cuesAll : List Node → List Cue
  | [] => []
  | node :: rest => cues node ++ cuesAll rest
end

mutual
/-- Numbers the `on` statements in a tree, from `n` on. -/
def mark (n : Nat) : Node → Node
  | .literal v => .literal v
  | .path name => .path name
  | .assign name value => .assign name (mark n value)
  | .binary op left right => .binary op (mark n left) (mark (n + left.cues.length) right)
  | .unary op operand => .unary op (mark n operand)
  | .block statements => .block (markAll n statements)
  | .branch condition yes no =>
    let n₁ := n + condition.cues.length
    .branch (mark n condition) (mark n₁ yes) <| match no with
      | some node => some (mark (n₁ + yes.cues.length) node)
      | none => none
  | .whileLoop condition body =>
    .whileLoop (mark n condition) (mark (n + condition.cues.length) body)
  | .forLoop init condition step body =>
    let n₁ := n + init.cues.length
    let n₂ := n₁ + condition.cues.length
    .forLoop (mark n init) (mark n₁ condition) (mark n₂ step) (mark (n₂ + step.cues.length) body)
  | .functionDef name params body => .functionDef name params (mark n body)
  | .returnWith value => .returnWith (mark n value)
  | .call name args => .call name (markAll n args)
  | .handler cue body => .handler { cue with mark := n } (mark (n + 1) body)
  | .trigger event args => .trigger event (markAll n args)
def markAll (n : Nat) : List Node → List Node
  | [] => []
  | node :: rest => mark n node :: markAll (n + node.cues.length) rest
end

end Parlance.Node
