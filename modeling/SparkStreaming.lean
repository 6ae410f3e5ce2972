import SparkStreaming.Graph
import SparkStreaming.Fusion
import SparkStreaming.Rdd
import SparkStreaming.Binary
import SparkStreaming.Output
import SparkStreaming.Transforms
import SparkStreaming.State
import SparkStreaming.Window
import SparkStreaming.ReduceWindow
import SparkStreaming.GroupWindow
import SparkStreaming.WindowMap
