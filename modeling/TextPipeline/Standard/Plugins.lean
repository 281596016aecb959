import TextPipeline.Standard.CountWords
import TextPipeline.Standard.FrontMatter
import TextPipeline.Standard.RemoveNodes
import TextPipeline.Standard.ReplaceText

/-! The plugins that every catalog starts with. -/

namespace TextPipeline.Standard

open TextPipeline.Pipeline TextPipeline.Plugin

/-- The plugins that every catalog starts with, in order. Front matter is read by `read`. -/
def pluginsWith (read : FrontMatter.Reader) : List (Metadata Attacher) :=
  [frontMatterPlugin read, removeNodesPlugin, replaceTextPlugin, countWordsPlugin]

end TextPipeline.Standard
