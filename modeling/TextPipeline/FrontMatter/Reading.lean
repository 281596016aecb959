import TextPipeline.Standard.Plugins
import TextPipeline.Toml.Document
import TextPipeline.Yaml.Value

/-! The readers of front matter that are used where scripts are carried out. -/

namespace TextPipeline

/-- The data that a text in a format stands for. -/
def FrontMatter.Format.read : FrontMatter.Reader
  | .yaml => Yaml.read
  | .toml => Toml.read

/-- The standard plugins with these readers. -/
def Standard.plugins : List (Plugin.Metadata Pipeline.Attacher) :=
  pluginsWith FrontMatter.Format.read

end TextPipeline
