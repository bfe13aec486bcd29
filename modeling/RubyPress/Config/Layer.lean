import RubyPress.Config

/-!
Settings of a rendering that may be left open.
-/

namespace RubyPress

structure RenderLayer where
  separator : Option Separator := none
  style : Option LiteralStyle := none
  deriving DecidableEq

namespace RenderLayer

/-- The settings of `upper` where it has any, those of `lower` elsewhere. -/
def covering (upper lower : RenderLayer) : RenderLayer :=
  ⟨upper.separator.or lower.separator, upper.style.or lower.style⟩

/-- The configuration, with the readable settings for what is left open. -/
def config (layer : RenderLayer) : RenderConfig :=
  ⟨layer.separator.getD RenderConfig.readable.separator,
    layer.style.getD RenderConfig.readable.style⟩

end RenderLayer

end RubyPress
