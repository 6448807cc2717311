import Mathlib.Data.List.Nodup
import Canon.Token.Kind

/-!
How tokens are shown. No two tokens are shown alike, none on more than one line, and none so that it could be taken for
the end of a remark in brackets.
-/
namespace Canon.Token

def all : List Token :=
  TokenClass.all.toList.map .plain ++ Punctuator.all.toList.map .punctuator ++ Keyword.all.toList.map .keyword

theorem mem_all (token : Token) : token ∈ all := by
  cases token with
  | plain token =>
    have listed : token ∈ TokenClass.all := Array.mem_of_getElem? token.all_position
    exact List.mem_append_left _ (List.mem_append_left _ (List.mem_map_of_mem (Array.mem_toList_iff.mpr listed)))
  | punctuator mark =>
    have listed : mark ∈ Punctuator.all := Array.mem_of_getElem? mark.all_position
    exact List.mem_append_left _ (List.mem_append_right _ (List.mem_map_of_mem (Array.mem_toList_iff.mpr listed)))
  | keyword word =>
    have listed : word ∈ Keyword.all := Array.mem_of_getElem? word.all_position
    exact List.mem_append_right _ (List.mem_map_of_mem (Array.mem_toList_iff.mpr listed))

theorem nodup_renderings : (all.map render).Nodup := by decide +kernel

theorem render_injective {left right : Token} (same : left.render = right.render) : left = right :=
  List.inj_on_of_nodup_map nodup_renderings (mem_all left) (mem_all right) same

theorem render_clear (token : Token) : '\n' ∉ token.render.toList ∧ token.render.toList.getLast? ≠ some ']' := by
  have clear : ∀ token ∈ all, '\n' ∉ token.render.toList ∧ token.render.toList.getLast? ≠ some ']' := by decide +kernel
  exact clear token token.mem_all

end Canon.Token
